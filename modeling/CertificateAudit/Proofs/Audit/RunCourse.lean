import CertificateAudit.Proofs.Audit.Course

/-!
The course of a whole audit in a world. `run_course` takes a run apart into the search, the
audits of the candidates, the saving and the events about saved files, and says what each of
them leaves in the world.
-/

namespace CertificateAudit

open CertificateAudit.Calendar CertificateAudit.Http CertificateAudit.Store
open CertificateAudit.Text

variable {State : Type}

namespace Audit

/-- The candidates that an audit goes on with after a search: none if the search failed. -/
def found (settings : Settings) (domain : String) (reply : Reply) : List Candidate :=
  match Log.candidatesOf (Log.searchRequest settings domain).url reply with
  | .ok candidates => candidates
  | .error _ => []

def searchEvents (settings : Settings) (domain : String) (reply : Reply) : List Event :=
  .searchStarted ::
    match Log.candidatesOf (Log.searchRequest settings domain).url reply with
    | .ok _ => []
    | .error error => [.searchFailed error.message]

def searchExchange (settings : Settings) (domain : String) (reply : Reply) : Exchange :=
  ⟨Log.searchRequest settings domain, reply⟩

theorem search_proceeds (network : Network State) (settings : Settings) (domain : String) :
    Proceeds network (Log.search (World.send network) settings domain) fun made told result =>
      told = [] ∧ ∃ reply, made = [searchExchange settings domain reply] ∧
        result = Log.candidatesOf (Log.searchRequest settings domain).url reply := by
  unfold Log.search
  refine .bind (.send _) ?_
  rintro _ _ reply ⟨rfl, rfl⟩
  exact .pure ⟨rfl, reply, rfl, rfl⟩

theorem findCandidates_proceeds (network : Network State) (settings : Settings)
    (domain : String) :
    Proceeds network (findCandidates (World.environment network) settings domain)
      fun made told candidates => ∃ reply, made = [searchExchange settings domain reply] ∧
        told = searchEvents settings domain reply ∧
        candidates = found settings domain reply := by
  unfold findCandidates
  refine .bind (.notify _) ?_
  rintro _ _ _ ⟨rfl, rfl⟩
  refine .bind (search_proceeds network settings domain) ?_
  rintro _ _ _ ⟨rfl, reply, rfl, rfl⟩
  cases read : Log.candidatesOf (Log.searchRequest settings domain).url reply with
  | ok candidates =>
      refine .pure ⟨reply, rfl, ?_, ?_⟩
      · simp only [searchEvents, read, List.append_nil]
      · simp only [found, read]
  | error error =>
      refine .bind (.notify _) ?_
      rintro _ _ _ ⟨rfl, rfl⟩
      refine .pure ⟨reply, rfl, ?_, ?_⟩
      · simp only [searchEvents, read, List.append_nil, List.nil_append, List.cons_append]
      · simp only [found, read]

theorem tellSaved_apply (network : Network State) (paths : List RawText) (world : World State) :
    tellSaved (World.environment network) paths world =
      ((), { world with events := world.events ++ paths.map Event.saved }) := by
  induction paths generalizing world with
  | nil =>
      have unchanged : tellSaved (World.environment network) [] world = ((), world) := rfl
      rw [unchanged, List.map_nil, List.append_nil]
  | cons path paths inductionHypothesis =>
      have first : tellSaved (World.environment network) (path :: paths) world =
          tellSaved (World.environment network) paths
            { world with events := world.events ++ [.saved path] } := rfl
      rw [first, inductionHypothesis]
      simp

namespace World

variable {α β : Type}

theorem onFiles_bind (operation : StateM FileTree α) (next : α → StateM FileTree β) :
    (onFiles (operation >>= next) : StateM (World State) β) =
      onFiles operation >>= fun value => onFiles (next value) := rfl

theorem saveFrom_disk (directory : RawText) (label : String) (index : Nat)
    (ders : List (List UInt8)) :
    saveFrom (disk : Disk (StateM (World State))) directory label index ders =
      onFiles (saveFrom FileTree.disk directory label index ders) := by
  induction ders generalizing index with
  | nil => rfl
  | cons der rest inductionHypothesis =>
      rw [saveFrom, saveFrom, onFiles_bind]
      refine congrArg _ (funext fun written => ?_)
      cases written with
      | error failure => rfl
      | ok done =>
          dsimp only
          rw [inductionHypothesis, onFiles_bind]
          refine congrArg _ (funext fun saved => ?_)
          cases saved <;> rfl

theorem save_disk (base : RawText) (domain : String) (date : Date) (ders : List (List UInt8)) :
    save (disk : Disk (StateM (World State))) base domain date ders =
      onFiles (save FileTree.disk base domain date ders) := by
  rw [save, save, onFiles_bind]
  refine congrArg _ (funext fun made => ?_)
  cases made with
  | error failure => rfl
  | ok done => exact saveFrom_disk ..

end World

/-- The events about saved files; a failure to save has none. -/
def savedEvents : Except SaveError (List RawText) → List Event
  | .ok paths => paths.map Event.saved
  | .error _ => []

def acceptedDers (outcomes : List Outcome) : List (List UInt8) :=
  (outcomes.filterMap Outcome.accepted?).map Record.der

/-- How a whole audit goes, given the file tree it starts from: its exchanges and events, its
result, and the cache and the file tree that it leaves. -/
inductive RunCourse (settings : Settings) (domain : String) (date : Date) (cache : IssuerCache)
    (files : FileTree) : List Exchange → List Event → Except SaveError Report → IssuerCache →
      FileTree → Prop where
  | ended {reply candidates inWindow segments tellings outcomes cache' saved files'} :
      candidates = found settings domain reply →
      inWindow = candidates.filter (fun candidate =>
        candidate.notBefore ≤ date ∧ date ≤ candidate.notAfter) →
      AuditCourse settings date inWindow cache segments tellings outcomes cache' →
      save FileTree.disk settings.directory domain date (acceptedDers outcomes) files =
        (saved, files') →
      RunCourse settings domain date cache files
        (searchExchange settings domain reply :: segments.flatten)
        (searchEvents settings domain reply ++
          .searchComplete candidates.length inWindow.length ::
            (tellings.flatten ++ savedEvents saved))
        (saved.map fun paths => {
          domain
          date
          totalCandidates := candidates.length
          inWindow := inWindow.length
          outcomes
          saved := paths }) cache' files'

/-- What an audit does before it saves anything. -/
def auditFound (environment : Environment (StateM (World State))) (settings : Settings)
    (domain : String) (date : Date) (cache : IssuerCache) :
    StateM (World State) (List Candidate × List Outcome × IssuerCache) := do
  let candidates ← findCandidates environment settings domain
  let inWindow := Candidate.inWindow candidates date
  environment.notify (.searchComplete candidates.length inWindow.length)
  let (outcomes, cache) ← auditAll environment settings date inWindow cache
  pure (candidates, outcomes, cache)

theorem auditFound_proceeds (network : Network State) (settings : Settings) (domain : String)
    (date : Date) (cache : IssuerCache) :
    Proceeds network (auditFound (World.environment network) settings domain date cache)
      fun made told result => ∃ reply segments tellings,
        let inWindow := result.1.filter fun candidate =>
          candidate.notBefore ≤ date ∧ date ≤ candidate.notAfter
        result.1 = found settings domain reply ∧
        made = searchExchange settings domain reply :: segments.flatten ∧
        told = searchEvents settings domain reply ++
          .searchComplete result.1.length inWindow.length :: tellings.flatten ∧
        AuditCourse settings date inWindow cache segments tellings result.2.1 result.2.2 := by
  unfold auditFound
  refine .bind (findCandidates_proceeds network settings domain) ?_
  rintro _ _ _ ⟨reply, rfl, rfl, rfl⟩
  refine .bind (.notify _) ?_
  rintro _ _ _ ⟨rfl, rfl⟩
  refine .bind (auditAll_proceeds network settings date _ cache) ?_
  rintro _ _ ⟨outcomes, cache'⟩ ⟨segments, tellings, rfl, rfl, course⟩
  rw [Candidate.inWindow_eq] at course ⊢
  refine .pure ⟨reply, segments, tellings, rfl, ?_, ?_, course⟩
  · simp only [List.append_nil, List.nil_append, List.cons_append]
  · simp only [List.append_nil, List.cons_append, List.nil_append]

/-- What an audit does from the saving on. -/
def saveFound (environment : Environment (StateM (World State))) (settings : Settings)
    (domain : String) (date : Date) :
    List Candidate × List Outcome × IssuerCache →
      StateM (World State) (Except SaveError Report × IssuerCache)
  | (candidates, outcomes, cache) => do
      match ← save environment.disk settings.directory domain date (acceptedDers outcomes) with
      | .error error => pure (.error error, cache)
      | .ok saved => do
          tellSaved environment saved
          pure (.ok {
            domain
            date
            totalCandidates := candidates.length
            inWindow := (Candidate.inWindow candidates date).length
            outcomes
            saved }, cache)

theorem run_eq_bind (environment : Environment (StateM (World State))) (settings : Settings)
    (domain : String) (date : Date) (cache : IssuerCache) :
    run environment settings domain date cache =
      auditFound environment settings domain date cache >>=
        saveFound environment settings domain date := by
  simp only [run, auditFound, bind_assoc, pure_bind]
  rfl

theorem saveFound_apply (network : Network State) (settings : Settings) (domain : String)
    (date : Date) (candidates : List Candidate) (outcomes : List Outcome) (cache : IssuerCache)
    (world : World State) {saved : Except SaveError (List RawText)} {files : FileTree}
    (stored : save FileTree.disk settings.directory domain date (acceptedDers outcomes)
      world.files = (saved, files)) :
    saveFound (World.environment network) settings domain date (candidates, outcomes, cache)
        world =
      ((saved.map fun paths => {
          domain
          date
          totalCandidates := candidates.length
          inWindow := (candidates.filter fun candidate =>
            candidate.notBefore ≤ date ∧ date ≤ candidate.notAfter).length
          outcomes
          saved := paths }, cache),
        { world with files, events := world.events ++ savedEvents saved }) := by
  have begun : save (World.environment network).disk settings.directory domain date
      (acceptedDers outcomes) world = (saved, { world with files }) := by
    have ofWorld : (World.environment network).disk = World.disk := rfl
    rw [ofWorld, World.save_disk, World.onFiles, stored]
  rw [← Candidate.inWindow_eq]
  cases saved with
  | error error =>
      simp only [saveFound, bind, StateT.bind, begun, savedEvents, List.append_nil]
      rfl
  | ok paths =>
      simp only [saveFound, bind, StateT.bind, begun, tellSaved_apply, savedEvents]
      rfl

/-- In every world an audit takes one of its courses. -/
theorem run_course (network : Network State) (settings : Settings) (domain : String)
    (date : Date) (cache : IssuerCache) (world : World State) :
    ∃ state made told result cache' files',
      Conversation network world.network made state ∧
      RunCourse settings domain date cache world.files made told result cache' files' ∧
      run (World.environment network) settings domain date cache world =
        ((result, cache'), { world.after state made told with files := files' }) := by
  obtain ⟨state, made, told, ⟨candidates, outcomes, cache'⟩, held,
    ⟨reply, segments, tellings, listed, rfl, rfl, course⟩, ran⟩ :=
      auditFound_proceeds network settings domain date cache world
  cases stored : save FileTree.disk settings.directory domain date (acceptedDers outcomes)
      world.files with
  | mk saved files' =>
      refine ⟨state, _, _, _, cache', files', held, .ended listed rfl course stored, ?_⟩
      rw [run_eq_bind, World.bind_apply, ran]
      refine Eq.trans (saveFound_apply network settings domain date candidates outcomes cache'
        (world.after state _ _) stored) ?_
      simp [World.after]

end Audit

end CertificateAudit
