import CertificateAudit.Proofs.Audit.Report
import CertificateAudit.Proofs.Audit.Transparency
import CertificateAudit.Proofs.Store.Repetition

/-!
Running an audit again. Over a steady network an audit that ended with a report ends with the
same report when it is run again in what it left behind, with the issuers that its auditor has
kept meanwhile or with none: `run_again`.
-/

namespace CertificateAudit.Audit

open CertificateAudit.Calendar CertificateAudit.Http CertificateAudit.Store

variable {State : Type} {answers : Request → Reply} {network : Network State}
  {settings : Settings} {domain : String} {date : Date}

theorem runPlain_again {files files' : FileTree} {told : List Event} {report : Report}
    (ended : runPlain answers settings domain date files = (.ok report, told, files')) :
    runPlain answers settings domain date files' = (.ok report, told, files') := by
  unfold runPlain at ended ⊢
  dsimp only at ended ⊢
  split at ended
  next saved middle stored =>
    cases saved with
    | error error => cases ended
    | ok paths =>
        have left : middle = files' := (Prod.mk.inj (Prod.mk.inj ended).2).2
        subst left
        rw [save_again stored]
        exact ended

/-- Over a steady network an auditor somewhere in its life does what an audit without a cache
does. -/
theorem Lifetime.eq_runPlain {cache : IssuerCache} {world : World State}
    (steady : network.IsSteady answers) (life : Lifetime network settings cache world)
    (domain : String) (date : Date) :
    let audit := run (World.environment network) settings domain date cache world
    ∃ told, audit.2.events = world.events ++ told ∧
      (audit.1.1, told, audit.2.files) = runPlain answers settings domain date world.files := by
  obtain ⟨state, made, told, result, cache', files', held, course, ran⟩ :=
    run_course network settings domain date cache world
  have plain := course.eq_runPlain life.backed (life.answered steady)
    (held.reply_of_steady steady)
  rw [ran]
  exact ⟨told, rfl, plain⟩

/-- Over a steady network take an audit that ends with a report. Its auditor is still one, with
the issuers it keeps; and whichever auditor with the same settings runs the audit again, this
one or a new one, it ends with the same report, tells the same events, and leaves the files
exactly as the first audit left them. -/
theorem run_again {cache cache' : IssuerCache} {world world' : World State} {report : Report}
    (steady : network.IsSteady answers) (life : Lifetime network settings cache world)
    (ran : run (World.environment network) settings domain date cache world =
      ((.ok report, cache'), world')) :
    Lifetime network settings cache' world' ∧
    ∃ told, world'.events = world.events ++ told ∧
      ∀ {kept : IssuerCache} {later : World State},
        Lifetime network settings kept later → later.files = world'.files →
        let again := run (World.environment network) settings domain date kept later
        again.1.1 = .ok report ∧ again.2.events = later.events ++ told ∧
          again.2.files = world'.files := by
  obtain ⟨told, events, plain⟩ := life.eq_runPlain steady domain date
  rw [ran] at events plain
  refine ⟨.audit life ran, told, events, ?_⟩
  intro kept later lifeLater sameFiles
  obtain ⟨told', events', plain'⟩ := lifeLater.eq_runPlain steady domain date
  rw [sameFiles, runPlain_again plain.symm] at plain'
  obtain ⟨sameResult, rest⟩ := Prod.mk.inj plain'
  obtain ⟨sameTold, files⟩ := Prod.mk.inj rest
  rw [sameTold] at events'
  exact ⟨sameResult, events', files⟩

/-- A new auditor and the one that ran before, which has kept an issuer. -/
theorem run_again_sample :
    ∃ (report : Report) (cache : IssuerCache) (world : World Unit),
      run (World.environment sampleNetwork) {} "example.com" sampleDate { enabled := true }
        { network := (), files := {} } = ((.ok report, cache), world) ∧
      (run (World.environment sampleNetwork) {} "example.com" sampleDate cache world).1.1 =
        .ok report ∧
      (run (World.environment sampleNetwork) {} "example.com" sampleDate { enabled := true }
        { network := (), files := world.files }).2.files = world.files := by
  obtain ⟨report, cache, world, ended, _⟩ := sampleNetwork_reports
  have steady : sampleNetwork.IsSteady fun request => (sampleNetwork.answer request ()).1 := by
    intro request state
    rfl
  have life : Lifetime sampleNetwork {} { enabled := true } { network := (), files := {} } :=
    .start
  obtain ⟨sameAuditor, told, _, again⟩ := run_again steady life ended
  have newAuditor : Lifetime sampleNetwork {} { enabled := true }
      { network := (), files := world.files } := .start
  exact ⟨report, cache, world, ended, (again sameAuditor rfl).1, (again newAuditor rfl).2.2⟩

end CertificateAudit.Audit
