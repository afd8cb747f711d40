import CertificateAudit.Http.Client
import CertificateAudit.Proofs.Text.Lines
import CertificateAudit.Proofs.Url.Controls

/-!
Why a request was not answered is told on one line. The URL in a failure is one that was read, or
one that a chain of redirects led to; either is in its normal form, whatever the servers wrote
(`Transport.network_isOneLine`).
-/

namespace CertificateAudit

open CertificateAudit.Text

theorem Url.IsPlain.isOneLine {url : Url} (plain : url.IsPlain) : IsOneLine url.text :=
  isOneLine_iff.mpr plain.text.lineFeed_not_mem

namespace Http

variable {State : Type}

/-- The failures that are about a URL. -/
def SendError.IsAbout (url : Url) (error : SendError) : Prop :=
  error = .notWeb url.text ∨ error = .unreachable url.text ∨ error = .redirects url.text

theorem SendError.IsAbout.isOneLine {url : Url} {error : SendError} (about : error.IsAbout url)
    (plain : url.IsPlain) : IsOneLine error.message := by
  have around (front : String) (single : IsOneLine front) :
      IsOneLine (front ++ url.text ++ ")") :=
    (single.append plain.isOneLine).append (by decide)
  rcases about with rfl | rfl | rfl
  · exact around _ (by decide)
  · exact around _ (by decide)
  · exact around _ (by decide)

theorem WireResponse.isPlain_of_redirect? {response : WireResponse} {base url : Url}
    (plain : base.IsPlain) (redirects : response.redirect? base = some url) : url.IsPlain := by
  unfold WireResponse.redirect? at redirects
  split at redirects
  · obtain ⟨location, _, read⟩ := Option.bind_eq_some_iff.mp redirects
    exact plain.follow? read
  · cases redirects

theorem WireRequest.isPlain_redirected (request : WireRequest) (status : Nat) {url : Url}
    (plain : url.IsPlain) : (request.redirected status url).url.IsPlain := by
  unfold WireRequest.redirected
  dsimp only
  split
  · exact plain.anonymous
  · exact plain.anonymous

theorem WireRequest.isPlain_of_ofRequest {request : Request} {wire : WireRequest}
    (made : ofRequest request = .ok wire) : wire.url.IsPlain := by
  unfold ofRequest at made
  split at made
  · cases made
  · next url read =>
      split at made
      · cases made
      · split at made <;> cases made
        exact (Url.isPlain_read? read).anonymous

theorem WireRequest.isOneLine_of_ofRequest {request : Request} {error : SendError}
    (refused : ofRequest request = .error error) : IsOneLine error.message := by
  unfold ofRequest at refused
  split at refused
  · cases refused
    decide
  · next url read =>
      split at refused
      · cases refused
        exact SendError.IsAbout.isOneLine (.inl rfl) (Url.isPlain_read? read)
      · split at refused <;> cases refused
        decide

section Follow

variable (transport : Transport State) {left : Nat} {request : WireRequest} {state : State}
  {error : SendError}

/-- A chain of exchanges fails at the first of them or at what that redirects to. -/
theorem Transport.follow_eq_error
    (failed : (transport.follow left request state).1 = .error error) :
    error.IsAbout request.url ∨
      ∃ less response url state', left = less + 1 ∧
        WireResponse.redirect? response request.url = some url ∧
        (transport.follow less (request.redirected response.status url) state').1 =
          .error error := by
  unfold Transport.follow at failed
  split at failed
  case isFalse =>
    cases failed
    exact .inl (.inl rfl)
  case isTrue =>
    split at failed
    · cases failed
      exact .inl (.inr (.inl rfl))
    · next response state' _ =>
        split at failed
        · cases failed
        · next url redirects =>
            split at failed
            · cases failed
              exact .inl (.inr (.inr rfl))
            · next less =>
                exact .inr ⟨less, response, url, state', rfl, redirects, failed⟩

/-- Redirects lead from URLs in normal form to such URLs. -/
theorem Transport.follow_isOneLine (plain : request.url.IsPlain)
    (failed : (transport.follow left request state).1 = .error error) :
    IsOneLine error.message := by
  induction left generalizing request state with
  | zero =>
      rcases transport.follow_eq_error failed with about | ⟨_, _, _, _, impossible, _⟩
      · exact about.isOneLine plain
      · cases impossible
  | succ left inductionHypothesis =>
      rcases transport.follow_eq_error failed with
        about | ⟨less, response, url, state', fewer, redirects, failed⟩
      · exact about.isOneLine plain
      · cases fewer
        refine inductionHypothesis ?_ failed
        exact request.isPlain_redirected _ (response.isPlain_of_redirect? plain redirects)

end Follow

/-- The words about a request that was not answered have no line feed. -/
theorem Transport.network_isOneLine (transport : Transport State) {request : Request}
    {state : State} {error : SendError}
    (failed : (transport.network.answer request state).1 = .error error) :
    IsOneLine error.message := by
  unfold Transport.network at failed
  dsimp only at failed
  split at failed
  · next refused =>
      cases failed
      exact WireRequest.isOneLine_of_ofRequest refused
  · next wire made =>
      exact transport.follow_isOneLine (WireRequest.isPlain_of_ofRequest made) failed

end Http

end CertificateAudit
