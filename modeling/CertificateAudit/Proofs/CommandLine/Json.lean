import CertificateAudit.CommandLine.Reader

/-!
A command line that can be read can also be read with the switch for JSON in front of it, if it
does not have it already: it then asks for the same and for JSON (`read_json_cons`). Every step
of the reading goes the same way with that switch given before (`Progress.Ignores`).
-/

namespace CertificateAudit.CommandLine

open CertificateAudit.Text

namespace Progress

variable {progress next : Progress} {step : Progress → Except Stop Progress}

def withJson (progress : Progress) : Progress :=
  { progress with flags := .json :: progress.flags }

/-- A step that ends without the switch for JSON started without it, and goes the same way where
the switch was given before. -/
def Ignores (step : Progress → Except Stop Progress) : Prop :=
  ∀ progress next, step progress = .ok next → Flag.json ∉ next.flags →
    Flag.json ∉ progress.flags ∧ step progress.withJson = .ok next.withJson

namespace Ignores

/-- A step that neither asks for the flags nor changes them. -/
theorem of_eq (commutes : ∀ progress, step progress.withJson = (step progress).map withJson)
    (keeps : ∀ progress next, step progress = .ok next → next.flags = progress.flags) :
    Ignores step := by
  intro progress next done absent
  refine ⟨?_, ?_⟩
  · rw [← keeps progress next done]
    exact absent
  · rw [commutes, done]
    rfl

theorem bind {behind : Progress → Except Stop Progress} (first : Ignores step)
    (second : Ignores behind) : Ignores fun progress => step progress >>= behind := by
  intro progress next done absent
  cases middle : step progress with
  | error stop =>
      simp only [middle] at done
      cases done
  | ok between =>
      simp only [middle] at done
      obtain ⟨notBetween, later⟩ := second between next done absent
      obtain ⟨notBefore, earlier⟩ := first progress between middle notBetween
      refine ⟨notBefore, ?_⟩
      simp only [earlier]
      exact later

theorem stopWith (fault : Fault) : Ignores fun _ => stopWith fault :=
  fun _ _ done => nomatch done

end Ignores

theorem takeParameter_ignores (parameter : Parameter) (value : RawText) :
    Ignores (takeParameter parameter value) := by
  apply Ignores.of_eq
  · intro progress
    have sameValue : progress.withJson.value? parameter = progress.value? parameter := by
      cases parameter <;> rfl
    unfold takeParameter
    rw [sameValue]
    split
    next => rfl
    next =>
      split
      next => rfl
      next => cases parameter <;> rfl
  · intro progress next done
    unfold takeParameter at done
    split at done
    next => cases done
    next =>
      split at done
      next => cases done
      next => cases parameter <;> cases done <;> rfl

theorem settle_ignores : Ignores settle := by
  intro progress next done absent
  unfold settle at done ⊢
  have sameWaiting : progress.withJson.waiting = progress.waiting := rfl
  rw [sameWaiting]
  split at done
  next =>
    cases done
    exact ⟨absent, rfl⟩
  next =>
    split at done
    next => cases done
    next =>
      cases done
      exact ⟨absent, rfl⟩
  next =>
    split at done
    next => cases done
    next =>
      split at done
      next =>
        cases done
        exact ⟨absent, rfl⟩
      next => cases done
  next => cases done
  next => exact takeParameter_ignores _ _ _ _ done absent

theorem await_ignores (item : Waiting) : Ignores (await item) := by
  have notes : Ignores fun progress => .ok { progress with waiting := some item } :=
    .of_eq (fun _ => rfl) fun _ _ done => by cases done; rfl
  exact settle_ignores.bind notes

theorem takeSwitch_ignores (switch : Switch) : Ignores (takeSwitch switch) := by
  cases switch with
  | parameter parameter => exact await_ignores _
  | topic topic => exact settle_ignores.bind fun _ _ done => nomatch done
  | flag flag =>
      refine settle_ignores.bind ?_
      intro progress next done absent
      dsimp only at done ⊢
      split at done
      next => cases done
      next new =>
        cases done
        obtain ⟨notBefore, notFlag⟩ := not_or.mp (mt List.mem_append.mpr absent)
        have other : flag ≠ .json := fun same => notFlag (List.mem_singleton.mpr same.symm)
        have stillNew : ¬ progress.withJson.flags.contains flag = true := by
          rw [withJson, List.contains_cons, Bool.or_eq_true, not_or]
          exact ⟨by simpa using other, new⟩
        refine ⟨notBefore, ?_⟩
        rw [if_neg stillNew]
        rfl

theorem takeAttached_ignores (parameter : Parameter) (value : RawText) :
    Ignores (takeAttached parameter value) :=
  settle_ignores.bind (takeParameter_ignores parameter _)

theorem readPlain_ignores (item : RawText) : Ignores (readPlain item) := by
  intro progress next done absent
  have sameCount : progress.withJson.plainItems = progress.plainItems := rfl
  unfold readPlain at done ⊢
  rw [sameCount]
  have counted (count : Nat) : Ignores fun progress => .ok { progress with plainItems := count } :=
    .of_eq (fun _ => rfl) fun _ _ done => by cases done; rfl
  split at done
  next => exact (await_ignores (.domain item)).bind (counted 1) progress next done absent
  next => exact (await_ignores (.date item)).bind (counted 2) progress next done absent
  next => cases done

theorem readLong_ignores (bytes : List UInt8) : Ignores (readLong bytes) := by
  unfold readLong
  dsimp only
  split
  next => exact .stopWith _
  next => exact takeSwitch_ignores _
  next => exact takeAttached_ignores _ _
  next => exact .stopWith _

theorem readLetters_ignores (letters : List Char) (behind : List UInt8) :
    Ignores (readLetters letters behind) := by
  induction letters with
  | nil =>
      cases behind with
      | nil => exact .of_eq (fun _ => rfl) fun _ _ done => by cases done; rfl
      | cons b behind => exact .stopWith _
  | cons letter rest inductionHypothesis =>
      intro progress next done absent
      unfold readLetters at done ⊢
      split at done
      next => cases done
      next => exact takeAttached_ignores _ _ progress next done absent
      next => exact takeAttached_ignores _ _ progress next done absent
      next => exact (takeSwitch_ignores _).bind inductionHypothesis progress next done absent

theorem read_ignores (item : RawText) : Ignores fun progress => progress.read item := by
  intro progress next done absent
  have samePlain : progress.withJson.plainOnly = progress.plainOnly := rfl
  have sameWaiting : progress.withJson.waiting = progress.waiting := rfl
  dsimp only at done ⊢
  unfold read at done ⊢
  rw [samePlain, sameWaiting]
  split at done
  next plain =>
    rw [if_pos plain]
    exact readPlain_ignores item progress next done absent
  next dashes =>
    rw [if_neg dashes]
    split at done
    next =>
      cases done
      exact ⟨absent, rfl⟩
    next => exact readLong_ignores _ progress next done absent
    next => exact readLetters_ignores _ _ progress next done absent
    next =>
      cases done
      exact ⟨absent, rfl⟩
    next => exact readPlain_ignores item progress next done absent

theorem readAll_ignores (items : List RawText) :
    Ignores fun progress => items.foldlM Progress.read progress := by
  induction items with
  | nil => exact .of_eq (fun _ => rfl) fun _ _ done => by cases done; rfl
  | cons item items inductionHypothesis => exact (read_ignores item).bind inductionHypothesis

theorem finish_withJson {arguments : Arguments} (done : progress.finish = .ok arguments)
    (absent : arguments.has .json = false) :
    .json ∉ progress.flags ∧
      progress.withJson.finish = .ok { arguments with flags := .json :: arguments.flags } := by
  unfold finish at done ⊢
  cases settled : progress.settle with
  | error stop =>
      rw [settled] at done
      cases done
  | ok last =>
      rw [settled] at done
      simp only [bind, Except.bind] at done
      split at done
      next domain date isDomain isDate =>
        cases done
        have notLast : Flag.json ∉ last.flags := by
          simpa [Arguments.has] using absent
        obtain ⟨notBefore, sameWay⟩ := settle_ignores progress last settled notLast
        have sameDomain : last.withJson.domain = some domain := isDomain
        have sameDate : last.withJson.date = some date := isDate
        refine ⟨notBefore, ?_⟩
        simp only [sameWay, bind, Except.bind, sameDomain, sameDate]
        rfl
      next => cases done

end Progress

theorem read_json_cons {items : List RawText} {arguments : Arguments}
    (valid : read items = .ok arguments) (absent : arguments.has .json = false) :
    read ("--json" :: items) = .ok { arguments with flags := .json :: arguments.flags } := by
  unfold read at valid ⊢
  cases readAll : items.foldlM Progress.read {} with
  | error stop =>
      rw [readAll] at valid
      cases valid
  | ok last =>
      rw [readAll] at valid
      obtain ⟨notLast, finished⟩ := Progress.finish_withJson valid absent
      have sameWay := (Progress.readAll_ignores items {} last readAll notLast).2
      have first : Progress.read {} "--json" = .ok (Progress.withJson {}) := by rfl
      rw [List.foldlM_cons, first]
      simp only [bind, Except.bind] at sameWay ⊢
      rw [sameWay]
      exact finished

end CertificateAudit.CommandLine
