import QueryShell.Proofs.Decimal.Spelling
import QueryShell.Proofs.Value.Order
import QueryShell.Value.Render

/-! What comes back of a value that was written. Numbers may change their form; nothing that can be
seen does. -/

namespace QueryShell.Value

mutual

/-- Numbers in the form in which they are read back. Exceptions are not read back at all. -/
def reread : Value → Value
  | .exception name fields => .exception name fields
  | .null => .null
  | .boolean flag => .boolean flag
  | .number n => .number n.reread
  | .string text => .string text
  | .array items => .array (rereadItems items)
  | .object entries => .object (rereadEntries entries)

def rereadItems : List Value → List Value
  | [] => []
  | v :: vs => reread v :: rereadItems vs

def rereadEntries : List (String × Value) → List (String × Value)
  | [] => []
  | (key, v) :: rest => (key, reread v) :: rereadEntries rest

end

theorem rereadItems_eq_map (vs : List Value) : rereadItems vs = vs.map reread := by
  induction vs with
  | nil => rfl
  | cons v vs ih => rw [rereadItems, ih, List.map_cons]

theorem rereadEntries_eq_map (es : List (String × Value)) :
    rereadEntries es = es.map fun e => (e.1, e.2.reread) := by
  induction es with
  | nil => rfl
  | cons e es ih => rw [rereadEntries, ih, List.map_cons]

theorem ordered_reread {v : Value} (h : v.Ordered) : v.reread.Ordered := by
  induction h with
  | exception name h _ => exact .exception name h
  | null => exact .null
  | boolean flag => exact .boolean flag
  | number n => exact .number n.reread
  | string text => exact .string text
  | array h ih =>
    rw [reread, rereadItems_eq_map]
    exact .array (List.forall_mem_map.mpr ih)
  | object hsorted h ih =>
    rw [reread, rereadEntries_eq_map]
    exact .object ((Dictionary.sorted_map reread).mpr hsorted) (List.forall_mem_map.mpr ih)

theorem cmpItems_map {f : Value → Value} {vs : List Value}
    (h : ∀ v ∈ vs, (f v).cmpCanonical v = .eq) :
    cmpItems (vs.map f) vs = .eq := by
  induction vs with
  | nil => rfl
  | cons v vs ih =>
    obtain ⟨hv, hvs⟩ := List.forall_mem_cons.mp h
    rw [List.map_cons, cmpItems, hv, ih hvs]
    rfl

theorem cmpCanonical_reread (v : Value) : v.reread.cmpCanonical v = .eq := by
  induction v using Value.induction with
  | number n => exact Decimal.cmp_reread n
  | array items ih =>
    rw [reread, rereadItems_eq_map, cmpCanonical]
    exact cmpItems_map ih
  | object entries ih =>
    have hkeys : Dictionary.keys (rereadEntries entries) = Dictionary.keys entries := by
      rw [rereadEntries_eq_map, Dictionary.keys, Dictionary.keys, List.map_map]
      rfl
    have hvalues : (rereadEntries entries).map Prod.snd = (entries.map Prod.snd).map reread := by
      rw [rereadEntries_eq_map, List.map_map, List.map_map]
      rfl
    have hcompare : compare (Dictionary.keys entries) (Dictionary.keys entries) = .eq :=
      Std.ReflOrd.compare_self
    rw [reread, cmpCanonical, cmpEntries_eq_cmpItems, hkeys, hcompare, hvalues,
      cmpItems_map (List.forall_mem_map.mpr ih)]
    rfl
  | _ => exact cmpCanonical_self _

theorem equal_reread (v : Value) : v.canonical.reread.Equal v := by
  rw [Equal, cmp, canonical_of_ordered (ordered_reread (ordered_canonical v))]
  exact cmpCanonical_reread v.canonical

theorem itemsTail_map {f : Value → Value} {layout : Layout} {depth : Nat} {vs : List Value}
    (h : ∀ v ∈ vs, (f v).text layout (depth + 1) = v.text layout (depth + 1)) :
    itemsTail layout depth (vs.map f) = itemsTail layout depth vs := by
  induction vs with
  | nil => rfl
  | cons v vs ih =>
    obtain ⟨hv, hvs⟩ := List.forall_mem_cons.mp h
    rw [List.map_cons, itemsTail, itemsTail, hv, ih hvs]

theorem entriesTail_map {f : Value → Value} {layout : Layout} {depth : Nat}
    {es : List (String × Value)}
    (h : ∀ e ∈ es, (f e.2).text layout (depth + 1) = e.2.text layout (depth + 1)) :
    entriesTail layout depth (es.map fun e => (e.1, f e.2)) = entriesTail layout depth es := by
  induction es with
  | nil => rfl
  | cons e es ih =>
    obtain ⟨he, hes⟩ := List.forall_mem_cons.mp h
    rw [List.map_cons, entriesTail, entriesTail, he, ih hes]

theorem text_reread (layout : Layout) (depth : Nat) (v : Value) :
    v.reread.text layout depth = v.text layout depth := by
  induction v using Value.induction generalizing depth with
  | number n =>
    rw [reread, text, text]
    exact Decimal.toTextWith_reread 'E' n
  | array items ih =>
    rw [reread, rereadItems_eq_map]
    cases items with
    | nil => rfl
    | cons v vs =>
      obtain ⟨hv, hvs⟩ := List.forall_mem_cons.mp ih
      rw [List.map_cons, text, text, hv, itemsTail_map fun w hw => hvs w hw (depth + 1)]
  | object entries ih =>
    rw [reread, rereadEntries_eq_map]
    cases entries with
    | nil => rfl
    | cons e es =>
      obtain ⟨he, hes⟩ := List.forall_mem_cons.mp ih
      rw [List.map_cons, text, text, he, entriesTail_map fun f hf => hes f hf (depth + 1)]
  | _ => rfl

theorem render_reread (layout : Layout) (v : Value) :
    v.canonical.reread.render layout = v.render layout := by
  rw [render, canonical_of_ordered (ordered_reread (ordered_canonical v)), text_reread, render]

end QueryShell.Value
