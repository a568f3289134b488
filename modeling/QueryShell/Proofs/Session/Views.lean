import QueryShell.Proofs.Lazy.Basic
import QueryShell.Proofs.Session.Cancellation
import QueryShell.Session.Views

/-! Sessions in which arrays are views. A token that fires leaves no trace as long as no array hangs
on it that may be in the scopes and is not read: an array that was collected under it can read as a
shorter one from then on. -/

namespace QueryShell

/-! ### What a value may read as -/

namespace Value

mutual

theorem Lapses.eq {v w : Value} (h : v.Lapses w) (hv : v.mayLapse = false) : w = v := by
  cases h with
  | same => rfl
  | @array items _ hitems =>
    cases hitems with
    | unread =>
      cases items with
      | nil => rfl
      | cons => cases hv
    | read => cases hv
  | object hentries => rw [hentries.eq hv]
  | exception name hfields => rw [hfields.eq hv]

theorem EntriesLapse.eq {entries left : List (String × Value)} (h : EntriesLapse entries left)
    (hentries : entriesMayLapse entries = false) : left = entries := by
  cases h with
  | nil => rfl
  | cons key hv hrest =>
    obtain ⟨hvalue, hentries⟩ := Bool.or_eq_false_iff.mp hentries
    rw [hv.eq hvalue, hrest.eq hentries]

end

theorem itemsLapse_append (items more : List Value) : ItemsLapse (items ++ more) items := by
  induction items with
  | nil => exact .unread more
  | cons v items ih => exact .read (.same v) ih

theorem forall₂_lapses_eq {vs ws : List Value} (h : List.Forall₂ Lapses vs ws)
    (hvs : vs.any mayLapse = false) :
    ws = vs := by
  induction h with
  | nil => rfl
  | cons hv _ ih =>
    obtain ⟨hvalue, hrest⟩ := Bool.or_eq_false_iff.mp hvs
    rw [hv.eq hvalue, ih hrest]

end Value

/-- What can be read of a view when its token has fired is what has been read of it before. -/
theorem Lazy.lapses_items {lazy : Lazy Value} {vs : List Value} (h : lazy.Complete vs) :
    (lazy.items none).1 = vs ∧ (lazy.items (some 0)).1 = lazy.store ∧
      (Value.array (lazy.items none).1).Lapses (.array (lazy.items (some 0)).1) := by
  obtain ⟨next, hall, _⟩ := h.items
  have hread : (lazy.items (some 0)).1 = lazy.store := by
    rw [items, fetchAll_eq, Queue.pop]
    cases lazy.queue.terminated <;> rfl
  refine ⟨by rw [hall], hread, .array ?_⟩
  rw [hall, hread, ← h.arrived]
  exact Value.itemsLapse_append lazy.store lazy.queue.values

theorem Scope.Lapses.refl (scope : Scope) : scope.Lapses scope :=
  List.forall₂_same.mpr fun _ _ => ⟨rfl, List.forall₂_same.mpr fun v _ => .same v⟩

theorem Scope.Lapses.eq {scope left : Scope} (h : scope.Lapses left)
    (hscope : scope.mayLapse = false) :
    left = scope := by
  induction h with
  | nil => rfl
  | @cons before left scope rest hentry _ ih =>
    obtain ⟨hvalues, hrest⟩ := Bool.or_eq_false_iff.mp hscope
    rw [ih hrest]
    exact congrArg (· :: scope) (Prod.ext hentry.1 (Value.forall₂_lapses_eq hentry.2 hvalues))

namespace Namespaces

theorem Lapses.refl (namespaces : Namespaces) : namespaces.Lapses namespaces :=
  ⟨.refl _, .refl _, rfl, rfl⟩

theorem Lapses.eq {namespaces left : Namespaces} (h : namespaces.Lapses left)
    (hnamespaces : namespaces.mayLapse = false) : left = namespaces := by
  obtain ⟨hglobals, hlocals⟩ := Bool.or_eq_false_iff.mp hnamespaces
  obtain ⟨globals, locals, formats, context⟩ := left
  obtain rfl : globals = namespaces.globals := h.globals.eq hglobals
  obtain rfl : locals = namespaces.locals := h.locals.eq hlocals
  obtain rfl : formats = namespaces.formats := h.formats
  obtain rfl : context = namespaces.context := h.context
  rfl

end Namespaces

/-! ### Histories -/

namespace Session

/-- A session, and whether arrays may be in its scopes that were collected under the token of the
last turn. -/
structure Situation where
  session : Session
  collected : Bool

namespace Situation

/-- What may have become of the scopes by the time the token of the last turn has fired. -/
def Loses (situation : Situation) (left : Namespaces) : Prop :=
  if situation.collected then situation.session.namespaces.Lapses left
  else left = situation.session.namespaces

/-- The token of the last turn has fired. -/
def fired (situation : Situation) (left : Namespaces) : Situation :=
  ⟨{ situation.session.cancel with namespaces := left }, false⟩

/-- No array in the scopes can be cut short when the token of the last turn fires. -/
def Settled (situation : Situation) : Prop :=
  situation.collected = true → situation.session.namespaces.mayLapse = false

/-- How a session goes on from a turn if its arrays are read whole. -/
def next (situation : Situation) (turn : Turn) : Situation :=
  ⟨(situation.session.run turn).2,
    !situation.session.fires turn && (situation.collected || turn.filter.collects)⟩

variable {situation : Situation}

theorem Settled.eq (h : situation.Settled) {left : Namespaces} (hleft : situation.Loses left) :
    left = situation.session.namespaces := by
  unfold Loses at hleft
  split at hleft
  · next hcollected => exact hleft.eq (h hcollected)
  · exact hleft

end Situation
end Session
end QueryShell
