import CertificateAudit.Audit.World

/-!
What a program can do in a world. A `Conversation` is a list of exchanges that a network allows
one after the other; `Proceeds` says that, whatever the network answers, a program holds a
conversation, tells events and gives a value, of which a relation holds. `Proceeds.bind` composes
such statements along a program.
-/

namespace CertificateAudit.Audit

open CertificateAudit.Http

variable {State : Type}

/-- Exchanges that a network allows one after the other, from one state to another. -/
inductive Conversation (network : Network State) : State → List Exchange → State → Prop where
  | silence {state} : Conversation network state [] state
  | exchange {state request exchanges last} :
      Conversation network (network.answer request state).2 exchanges last →
      Conversation network state (⟨request, (network.answer request state).1⟩ :: exchanges) last

namespace Conversation

variable {network : Network State}

theorem append {first middle last : State} {earlier later : List Exchange}
    (before : Conversation network first earlier middle)
    (behind : Conversation network middle later last) :
    Conversation network first (earlier ++ later) last := by
  induction before with
  | silence => exact behind
  | exchange _ inductionHypothesis => exact .exchange (inductionHypothesis behind)

theorem reply_of_cons {first last : State} {request : Request} {reply : Reply}
    {later : List Exchange} (held : Conversation network first (⟨request, reply⟩ :: later) last) :
    reply = (network.answer request first).1 := by
  cases held
  rfl

theorem reply_of_steady {first last : State} {exchanges : List Exchange}
    {answers : Request → Reply} (steady : network.IsSteady answers)
    (held : Conversation network first exchanges last) :
    ∀ exchange ∈ exchanges, exchange.reply = answers exchange.request := by
  induction held with
  | silence =>
      intro exchange membership
      cases membership
  | @exchange state request exchanges last _ inductionHypothesis =>
      intro exchange membership
      rcases List.mem_cons.mp membership with rfl | later
      · exact steady request state
      · exact inductionHypothesis exchange later

end Conversation

/-- The world after a conversation that ended in a state of the network, and after events. -/
def World.after (world : World State) (state : State) (made : List Exchange)
    (told : List Event) : World State :=
  { world with
    network := state
    exchanges := world.exchanges ++ made
    events := world.events ++ told }

namespace World

variable (world : World State) (state : State) (made : List Exchange) (told : List Event)

theorem after_nil : world.after world.network [] [] = world := by
  simp [World.after]

theorem after_after (next : State) (more : List Exchange) (further : List Event) :
    (world.after state made told).after next more further =
      world.after next (made ++ more) (told ++ further) := by
  simp [World.after]

theorem bind_apply {α β : Type} (program : StateM (World State) α)
    (next : α → StateM (World State) β) :
    (program >>= next) world = next (program world).1 (program world).2 := rfl

end World

/-- In every world the program holds a conversation, tells events and gives a value as the
relation says, and changes nothing else. -/
def Proceeds {α : Type} (network : Network State) (program : StateM (World State) α)
    (course : List Exchange → List Event → α → Prop) : Prop :=
  ∀ world : World State, ∃ state made told value,
    Conversation network world.network made state ∧ course made told value ∧
      program world = (value, world.after state made told)

namespace Proceeds

variable {α β : Type} {network : Network State}

theorem pure {value : α} {course : List Exchange → List Event → α → Prop}
    (fits : course [] [] value) :
    Proceeds network (Pure.pure value : StateM (World State) α) course := by
  intro world
  refine ⟨world.network, [], [], value, .silence, fits, ?_⟩
  rw [world.after_nil]
  rfl

theorem send (request : Request) :
    Proceeds network (World.send network request) fun made told reply =>
      made = [⟨request, reply⟩] ∧ told = [] := by
  intro world
  refine ⟨(network.answer request world.network).2, _, [], _, .exchange .silence, ⟨rfl, rfl⟩, ?_⟩
  simp [World.send, World.after]

theorem notify (event : Event) :
    Proceeds network (World.notify event : StateM (World State) Unit) fun made told _ =>
      made = [] ∧ told = [event] := by
  intro world
  refine ⟨world.network, [], [event], (), .silence, ⟨rfl, rfl⟩, ?_⟩
  simp [World.notify, World.after]

theorem bind {program : StateM (World State) α} {next : α → StateM (World State) β}
    {first : List Exchange → List Event → α → Prop}
    {course : List Exchange → List Event → β → Prop}
    (start : Proceeds network program first)
    (rest : ∀ made told value, first made told value →
      Proceeds network (next value) fun more further result =>
        course (made ++ more) (told ++ further) result) :
    Proceeds network (program >>= next) course := by
  intro world
  obtain ⟨state, made, told, value, held, fits, ran⟩ := start world
  obtain ⟨last, more, further, result, heldRest, fitsRest, ranRest⟩ :=
    rest made told value fits (world.after state made told)
  refine ⟨last, made ++ more, told ++ further, result, held.append heldRest, fitsRest, ?_⟩
  rw [World.bind_apply, ran, ranRest, World.after_after]

end Proceeds

end CertificateAudit.Audit
