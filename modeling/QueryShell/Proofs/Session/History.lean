import QueryShell.Proofs.Eval.Terminal
import QueryShell.Session

/-! What a session carries through a history of turns and of requests to cancel: scopes in which no
variable holds an exception and which no variable ever leaves, and the format strings and the
context of the beginning. -/

namespace QueryShell

/-- The later namespaces have all variables of the earlier ones, and the rest unchanged. -/
structure Namespaces.Extends (before after : Namespaces) : Prop where
  formats : after.formats = before.formats
  context : after.context = before.context
  locals_contains : ∀ name, before.locals.contains name = true → after.locals.contains name = true
  globals_contains : ∀ name, before.globals.contains name = true →
    after.globals.contains name = true

namespace Namespaces

theorem Extends.refl (namespaces : Namespaces) : namespaces.Extends namespaces :=
  ⟨rfl, rfl, fun _ h => h, fun _ h => h⟩

theorem Extends.trans {first second third : Namespaces} (h : first.Extends second)
    (h' : second.Extends third) : first.Extends third where
  formats := h'.formats.trans h.formats
  context := h'.context.trans h.context
  locals_contains name hn := h'.locals_contains name (h.locals_contains name hn)
  globals_contains name hn := h'.globals_contains name (h.globals_contains name hn)

theorem Framed.extends {locals : List String} {globals : List (Option String)}
    {before after : Namespaces} (h : Framed locals globals before after) : before.Extends after :=
  ⟨h.formats, h.context, h.locals_contains, h.globals_contains⟩

end Namespaces

namespace Session

/-- A turn, or a request to cancel while no turn is on. -/
inductive Event where
  | turn (turn : Turn)
  | cancel

def handle (session : Session) : Event → Session
  | .turn turn => (session.run turn).2
  | .cancel => session.cancel

/-- The session after a history of events. -/
def after (session : Session) (history : List Event) : Session := history.foldl handle session

/-- An event leaves the namespaces alone, or they are those that the filter of a turn leaves. -/
theorem namespaces_handle_cases (session : Session) (event : Event) :
    (session.handle event).namespaces = session.namespaces ∨
    ∃ turn : Turn, (session.handle event).namespaces =
      (turn.filter.eval session.runtime ⟨turn.input, session.namespaces⟩).result.namespaces := by
  cases event with
  | cancel => exact .inl rfl
  | turn turn =>
    unfold handle run settle
    dsimp only
    split
    · exact .inl rfl
    · exact .inr ⟨turn, rfl⟩

theorem extends_handle (session : Session) (event : Event) :
    session.namespaces.Extends (session.handle event).namespaces := by
  rcases namespaces_handle_cases session event with h | ⟨turn, h⟩
  · rw [h]
    exact .refl _
  · rw [h]
    exact (Filter.framed_eval session.runtime turn.filter ⟨turn.input, session.namespaces⟩).extends

theorem plain_handle {session : Session} (hplain : session.namespaces.Plain) (event : Event) :
    (session.handle event).namespaces.Plain := by
  rcases namespaces_handle_cases session event with h | ⟨turn, h⟩
  · rw [h]
    exact hplain
  · rw [h]
    exact Filter.plain_eval session.runtime turn.filter hplain

theorem extends_after (session : Session) (history : List Event) :
    session.namespaces.Extends (session.after history).namespaces := by
  induction history generalizing session with
  | nil => exact .refl _
  | cons event history ih => exact (extends_handle session event).trans (ih (session.handle event))

theorem plain_after {session : Session} (hplain : session.namespaces.Plain) (history : List Event) :
    (session.after history).namespaces.Plain := by
  induction history generalizing session with
  | nil => exact hplain
  | cons event history ih => exact ih (plain_handle hplain event)

theorem after_append (session : Session) (earlier later : List Event) :
    session.after (earlier ++ later) = (session.after earlier).after later :=
  List.foldl_append

/-- However a history goes on, no variable holds an exception, the format strings and the context
are those that the session was created with, and a variable that is bound stays bound. -/
theorem after_invariant (runtime : Runtime) (context : Context) (earlier later : List Event) :
    let created := (start runtime).withContext context
    let between := (created.after earlier).namespaces
    let final := (created.after (earlier ++ later)).namespaces
    final.Plain ∧ final.formats = created.namespaces.formats ∧ final.context = context ∧
      (∀ name, between.locals.contains name = true → final.locals.contains name = true) ∧
      ∀ name, between.globals.contains name = true → final.globals.contains name = true := by
  intro created between final
  have hcreated : created.namespaces.Plain := ⟨Scope.plain_nil, Scope.plain_nil⟩
  have hplain : final.Plain := plain_after hcreated (earlier ++ later)
  have hwhole : created.namespaces.Extends final := extends_after created (earlier ++ later)
  have hlater : between.Extends final := by
    simp only [final, after_append]
    exact extends_after (created.after earlier) later
  exact ⟨hplain, hwhole.formats, hwhole.context, hlater.locals_contains, hlater.globals_contains⟩

end Session
end QueryShell
