import QueryShell.Proofs.Dictionary
import QueryShell.Value.Basic

/-! Induction over values, and the canonical form: every object in it has its keys in order, and a
value of that form is its own canonical form. -/

namespace QueryShell.Value

/-- The parts of a value are the values directly in it. -/
@[elab_as_elim]
theorem induction {motive : Value → Prop}
    (exception : ∀ name fields, (∀ e ∈ fields, motive e.2) → motive (.exception name fields))
    (null : motive .null)
    (boolean : ∀ flag, motive (.boolean flag))
    (number : ∀ n, motive (.number n))
    (string : ∀ text, motive (.string text))
    (array : ∀ items, (∀ v ∈ items, motive v) → motive (.array items))
    (object : ∀ entries, (∀ e ∈ entries, motive e.2) → motive (.object entries))
    (v : Value) : motive v :=
  v.rec (motive_1 := motive) (motive_2 := fun es => ∀ e ∈ es, motive e.2)
    (motive_3 := fun vs => ∀ v ∈ vs, motive v) (motive_4 := fun e => motive e.2) exception null
    boolean number string array object
    nofun (fun _ _ hhead htail => List.forall_mem_cons.mpr ⟨hhead, htail⟩)
    nofun (fun _ _ hhead htail => List.forall_mem_cons.mpr ⟨hhead, htail⟩) (fun _ _ h => h)

theorem kind_canonical (v : Value) : v.canonical.kind = v.kind := by
  cases v <;> rfl

theorem canonicalItems_eq_map (vs : List Value) : canonicalItems vs = vs.map canonical := by
  induction vs with
  | nil => rfl
  | cons v vs ih => rw [canonicalItems, ih, List.map_cons]

theorem canonicalFields_eq_map (es : List (String × Value)) :
    canonicalFields es = es.map fun e => (e.1, e.2.canonical) := by
  induction es with
  | nil => rfl
  | cons e es ih => rw [canonicalFields, ih, List.map_cons]

theorem sorted_canonicalEntries (es : List (String × Value)) :
    Dictionary.Sorted (canonicalEntries es) := by
  induction es with
  | nil => exact .nil
  | cons e es ih => exact Dictionary.sorted_insertNew e.1 e.2.canonical ih

theorem canonical_of_mem_canonicalEntries {e : String × Value} {es : List (String × Value)}
    (h : e ∈ canonicalEntries es) : ∃ f ∈ es, e.2 = f.2.canonical := by
  induction es with
  | nil => simp [canonicalEntries] at h
  | cons f fs ih =>
    rcases Dictionary.mem_insertNew h with rfl | h
    · exact ⟨f, List.mem_cons_self, rfl⟩
    · obtain ⟨g, hg, he⟩ := ih h
      exact ⟨g, List.mem_cons_of_mem _ hg, he⟩

theorem canonicalEntries_of_sorted {es : List (String × Value)} (h : Dictionary.Sorted es) :
    canonicalEntries es = es.map fun e => (e.1, e.2.canonical) := by
  induction es with
  | nil => rfl
  | cons e es ih =>
    obtain ⟨hfirst, hrest⟩ := Dictionary.sorted_cons.mp h
    rw [canonicalEntries, ih hrest]
    refine Dictionary.insertNew_of_forall_lt ?_ _
    exact List.forall_mem_map.mpr hfirst

theorem find?_canonicalEntries (key : String) (es : List (String × Value)) :
    Dictionary.find? key (canonicalEntries es) =
      (Dictionary.find? key es.reverse).map canonical := by
  induction es with
  | nil => rfl
  | cons e es ih =>
    rw [canonicalEntries, Dictionary.find?_insertNew _ _ (sorted_canonicalEntries es), ih,
      List.reverse_cons, Dictionary.find?_append]
    cases Dictionary.find? key es.reverse with
    | some v => rfl
    | none => by_cases hkey : key = e.1 <;> simp [Dictionary.find?, hkey]

/-- To an observer, entries in arrival order are the dictionary that they come to. -/
theorem canonical_ofEntries (es : List (String × Value)) :
    (object (Dictionary.ofEntries es)).canonical = (object es).canonical := by
  have hsorted := Dictionary.sorted_ofEntries es
  have hentries : canonicalEntries (Dictionary.ofEntries es) = canonicalEntries es := by
    refine (sorted_canonicalEntries _).ext (sorted_canonicalEntries es) fun key => ?_
    rw [find?_canonicalEntries, find?_canonicalEntries,
      Dictionary.find?_reverse_of_sorted key hsorted, Dictionary.find?_ofEntries]
  rw [canonical, canonical, hentries]

/-- Every object has each key once, in order. -/
inductive Ordered : Value → Prop where
  | exception (name : String) {fields : List (String × Value)} (h : ∀ e ∈ fields, Ordered e.2) :
    Ordered (.exception name fields)
  | null : Ordered .null
  | boolean (flag : Bool) : Ordered (.boolean flag)
  | number (n : Decimal) : Ordered (.number n)
  | string (text : String) : Ordered (.string text)
  | array {items : List Value} (h : ∀ v ∈ items, Ordered v) : Ordered (.array items)
  | object {entries : List (String × Value)} (hsorted : Dictionary.Sorted entries)
    (h : ∀ e ∈ entries, Ordered e.2) :
    Ordered (.object entries)

theorem ordered_canonical (v : Value) : v.canonical.Ordered := by
  induction v using Value.induction with
  | exception name fields ih =>
    rw [canonical, canonicalFields_eq_map]
    exact .exception name (List.forall_mem_map.mpr ih)
  | null => exact .null
  | boolean flag => exact .boolean flag
  | number n => exact .number n
  | string text => exact .string text
  | array items ih =>
    rw [canonical, canonicalItems_eq_map]
    exact .array (List.forall_mem_map.mpr ih)
  | object entries ih =>
    rw [canonical]
    refine .object (sorted_canonicalEntries entries) fun e he => ?_
    obtain ⟨f, hf, heq⟩ := canonical_of_mem_canonicalEntries he
    exact heq ▸ ih f hf

theorem canonical_of_ordered {v : Value} (h : v.Ordered) : v.canonical = v := by
  induction h with
  | exception name h ih =>
    rw [canonical, canonicalFields_eq_map, List.map_congr_left fun e he => by rw [ih e he],
      List.map_id']
  | array h ih => rw [canonical, canonicalItems_eq_map, List.map_congr_left ih, List.map_id']
  | object hsorted h ih =>
    rw [canonical, canonicalEntries_of_sorted hsorted, List.map_congr_left fun e he =>
      by rw [ih e he], List.map_id']
  | _ => rfl

end QueryShell.Value
