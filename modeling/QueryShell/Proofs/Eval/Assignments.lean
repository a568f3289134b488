import QueryShell.Proofs.Eval.Sequence

/-! Assignments in sequence bind one variable after the other: each right side sees the whole input
and the variables bound before it, and so does what follows them. The first right side that raises
an exception ends it all. -/

namespace QueryShell

inductive Variable where
  | local (name : String)
  | global (name : String)
  deriving DecidableEq

namespace Namespaces

def bind (namespaces : Namespaces) (values : List Value) : Variable → Namespaces
  | .local name => { namespaces with locals := namespaces.locals.bind name values }
  | .global name => { namespaces with globals := namespaces.globals.bind name values }

def get? (namespaces : Namespaces) : Variable → Option (List Value)
  | .local name => namespaces.locals.get? name
  | .global name => namespaces.globals.get? name

theorem get?_bind (namespaces : Namespaces) (values : List Value) (bound read : Variable) :
    (namespaces.bind values bound).get? read =
      if read = bound then some values else namespaces.get? read := by
  cases bound <;> cases read <;> simp [bind, get?, Scope.get?_bind]

end Namespaces

/-- The variable that a filter names literally. -/
def Filter.binding? : Filter → Option Variable
  | .name label => some (.local label)
  | .globalVariable label => label.literalName?.map .global
  | _ => none

theorem Filter.eq_of_binding? {f : Filter} {v : Variable} (h : f.binding? = some v) :
    (∃ label, f = .name label ∧ v = .local label) ∨
    ∃ label name, f = .globalVariable label ∧ label.literalName? = some name ∧
    v = .global name := by
  cases f with
  | name label => exact .inl ⟨label, rfl, (Option.some.inj h).symm⟩
  | globalVariable label =>
    obtain ⟨name, hname, hv⟩ := Option.map_eq_some_iff.mp h
    exact .inr ⟨label, name, rfl, hname, hv.symm⟩
  | _ => simp [binding?] at h

/-- A bound variable is read as what it was bound to, whether or not there is a function of its
name. -/
theorem Filter.eval_of_get? (runtime : Runtime) {f : Filter} {v : Variable}
    (hf : f.binding? = some v) {namespaces : Namespaces} {stored values : List Value}
    (hv : namespaces.get? v = some stored) (hvalues : Stream.raises values = false) :
    f.eval runtime ⟨values, namespaces⟩ = return ⟨stored, namespaces⟩ := by
  have hnone := Stream.firstException?_eq_none_iff.mpr hvalues
  rcases eq_of_binding? hf with ⟨label, rfl, rfl⟩ | ⟨label, name, rfl, hliteral, rfl⟩
  · have hlocal : namespaces.locals.get? label = some stored := hv
    simp [eval, Node.name, hlocal, Node.replay, hnone]
  · have hglobal : namespaces.globals.get? name = some stored := hv
    simp [eval, Node.globalVariable, hliteral, Node.globalValues, hglobal, Node.replay, hnone]

/-- An assignment to a variable that its target names literally. -/
structure Assignment where
  target : Filter
  binds : Variable
  target_names : target.binding? = some binds
  right : Filter

namespace Assignment

variable {runtime : Runtime} {values : List Value} {namespaces : Namespaces}

def toFilter (a : Assignment) : Filter := .assign a.target a.right

def stored (runtime : Runtime) (a : Assignment) (input : Stream) : Run (List Value) := do
  return (← a.right.eval runtime input).values

/-- One variable after the other is bound to what its right side makes of the same values. -/
def bindAll (runtime : Runtime) (values : List Value) :
    List Assignment → Namespaces → Run Namespaces
  | [], namespaces => return namespaces
  | a :: rest, namespaces => do
    bindAll runtime values rest (namespaces.bind (← a.stored runtime ⟨values, namespaces⟩) a.binds)

/-- The namespaces under which the right side at a position is run. -/
def scopes (runtime : Runtime) (values : List Value) (as : List Assignment)
    (namespaces : Namespaces) (i : Nat) : Namespaces :=
  (bindAll runtime values (as.take i) namespaces).result

theorem scopes_zero (as : List Assignment) : scopes runtime values as namespaces 0 = namespaces :=
  rfl

theorem scopes_cons_succ (a : Assignment) (as : List Assignment) (i : Nat) :
    scopes runtime values (a :: as) namespaces (i + 1) = scopes runtime values as
      (namespaces.bind (a.stored runtime ⟨values, namespaces⟩).result a.binds) i := rfl

theorem scopes_succ {as : List Assignment} {i : Nat} {a : Assignment} (hi : as[i]? = some a) :
    scopes runtime values as namespaces (i + 1) = (scopes runtime values as namespaces i).bind
      (a.stored runtime ⟨values, scopes runtime values as namespaces i⟩).result a.binds := by
  induction as generalizing namespaces i with
  | nil => simp at hi
  | cons b as ih =>
    cases i with
    | zero =>
      obtain rfl : b = a := by simpa using hi
      rfl
    | succ i => exact ih hi

theorem scopes_length (as : List Assignment) :
    scopes runtime values as namespaces as.length =
      (bindAll runtime values as namespaces).result := by
  rw [scopes, List.take_length]

theorem eval_toFilter_of_firstException? {a : Assignment} {input : Stream} {e : Value}
    (h : Stream.firstException? (a.stored runtime input).result = some e) :
    a.toFilter.eval runtime input = do
      let _ ← a.stored runtime input
      return ⟨[e], input.namespaces⟩ := by
  have hright : Stream.firstException? (a.right.eval runtime input).result.values = some e := h
  rw [toFilter, Filter.eval_assign]
  apply Run.ext <;> simp [Node.assign, hright, stored]

theorem eval_toFilter_of_raises_eq_false {a : Assignment} (hvalues : Stream.raises values = false)
    (h : Stream.raises (a.stored runtime ⟨values, namespaces⟩).result = false) :
    a.toFilter.eval runtime ⟨values, namespaces⟩ = do
      let stored ← a.stored runtime ⟨values, namespaces⟩
      return ⟨values, namespaces.bind stored a.binds⟩ := by
  have hright : Stream.firstException? (a.right.eval runtime ⟨values, namespaces⟩).result.values =
      none := Stream.firstException?_eq_none_iff.mpr h
  have hthrough := Stream.throughException_of_raises_eq_false hvalues
  obtain ⟨target, binds, hnames, right⟩ := a
  rw [toFilter, Filter.eval_assign]
  rcases Filter.eq_of_binding? hnames with ⟨label, rfl, rfl⟩ | ⟨label, name, rfl, hliteral, rfl⟩
  · apply Run.ext <;>
      simp [Node.assign, hright, stored, Filter.target, Node.bind, Node.withBinding, hthrough,
        Namespaces.bind]
  · apply Run.ext <;>
      simp [Node.assign, hright, stored, Filter.target, Node.bind, Namer.resolve, hliteral,
        Node.withBinding, hthrough, Namespaces.bind]

theorem eval_semicolon_of_firstException? {a : Assignment} {input : Stream} {e : Value}
    (h : Stream.firstException? (a.stored runtime input).result = some e) (rest : Filter) :
    (Filter.semicolon a.toFilter rest).eval runtime input = do
      let _ ← a.stored runtime input
      return ⟨[e], input.namespaces⟩ := by
  have he := Stream.isException_of_firstException? h
  have heval := eval_toFilter_of_firstException? h
  have hfirst : Stream.firstException? (a.toFilter.eval runtime input).result.values = some e := by
    simp [heval, Stream.firstException?, he]
  rw [Filter.eval, Node.semicolon_of_firstException? hfirst, heval]
  apply Run.ext <;> simp

theorem eval_semicolon_of_raises_eq_false {a : Assignment} (hvalues : Stream.raises values = false)
    (h : Stream.raises (a.stored runtime ⟨values, namespaces⟩).result = false) (rest : Filter) :
    (Filter.semicolon a.toFilter rest).eval runtime ⟨values, namespaces⟩ =
      a.stored runtime ⟨values, namespaces⟩ >>= fun stored =>
        rest.eval runtime ⟨values, namespaces.bind stored a.binds⟩ := by
  have heval := eval_toFilter_of_raises_eq_false hvalues h
  have hplain : Stream.raises (a.toFilter.eval runtime ⟨values, namespaces⟩).result.values =
      false := by
    simp [heval, hvalues]
  rw [Filter.eval_semicolon_of_raises_eq_false hplain, heval, bind_assoc]
  simp only [pure_bind]

/-- The assignments one after the other, and then the body. -/
def inSequence (as : List Assignment) (body : Filter) : Filter :=
  as.foldr (fun a rest => .semicolon a.toFilter rest) body

theorem stages_inSequence (as : List Assignment) (body : Filter) :
    (inSequence as body).stages = as.map toFilter ++ body.stages := by
  induction as with
  | nil => rfl
  | cons a as ih =>
    rw [inSequence, List.foldr_cons, ← inSequence, Filter.stages, ih]
    rfl

theorem eval_inSequence_of_raises_eq_false (hvalues : Stream.raises values = false) (body : Filter)
    {as : List Assignment}
    (h : ∀ i (a : Assignment), as[i]? = some a →
      Stream.raises (a.stored runtime ⟨values, scopes runtime values as namespaces i⟩).result =
        false) :
    (inSequence as body).eval runtime ⟨values, namespaces⟩ =
      bindAll runtime values as namespaces >>= fun after => body.eval runtime ⟨values, after⟩ := by
  induction as generalizing namespaces with
  | nil => rfl
  | cons a as ih =>
    have hfirst := h 0 a rfl
    rw [scopes_zero] at hfirst
    rw [inSequence, List.foldr_cons, ← inSequence, bindAll, bind_assoc,
      eval_semicolon_of_raises_eq_false hvalues hfirst]
    have hrest := @ih (namespaces.bind (a.stored runtime ⟨values, namespaces⟩).result a.binds)
      (fun i b hb => h (i + 1) b hb)
    apply Run.ext
    · rw [Run.result_bind, Run.result_bind, hrest]
    · rw [Run.calls_bind, Run.calls_bind, hrest]

theorem eval_inSequence_of_firstException? (hvalues : Stream.raises values = false) (body : Filter)
    {as : List Assignment} {k : Nat} {a : Assignment} {e : Value} (hk : as[k]? = some a)
    (h : ∀ i (b : Assignment), i < k → as[i]? = some b →
      Stream.raises (b.stored runtime ⟨values, scopes runtime values as namespaces i⟩).result =
        false)
    (he :
      Stream.firstException?
        (a.stored runtime ⟨values, scopes runtime values as namespaces k⟩).result = some e) :
    (inSequence as body).eval runtime ⟨values, namespaces⟩ = do
      let before ← bindAll runtime values (as.take k) namespaces
      let _ ← a.stored runtime ⟨values, before⟩
      return ⟨[e], before⟩ := by
  induction as generalizing namespaces k with
  | nil => simp at hk
  | cons b as ih =>
    rw [inSequence, List.foldr_cons, ← inSequence]
    cases k with
    | zero =>
      obtain rfl : b = a := by simpa using hk
      exact eval_semicolon_of_firstException? he (inSequence as body)
    | succ k =>
      have hfirst := h 0 b (Nat.succ_pos k) rfl
      rw [scopes_zero] at hfirst
      rw [List.take_succ_cons, bindAll, bind_assoc,
        eval_semicolon_of_raises_eq_false hvalues hfirst]
      have hrest :=
        @ih (namespaces.bind (b.stored runtime ⟨values, namespaces⟩).result b.binds) k hk
        (fun i c hi hc => h (i + 1) c (Nat.succ_lt_succ hi) hc) he
      apply Run.ext
      · rw [Run.result_bind, Run.result_bind, hrest]
      · rw [Run.calls_bind, Run.calls_bind, hrest]

theorem get?_bindAll_of_forall_ne {v : Variable} {as : List Assignment}
    (h : ∀ a ∈ as, a.binds ≠ v) :
    (bindAll runtime values as namespaces).result.get? v = namespaces.get? v := by
  induction as generalizing namespaces with
  | nil => rfl
  | cons a as ih =>
    have hne : v ≠ a.binds := (h a List.mem_cons_self).symm
    rw [bindAll, Run.result_bind, ih (fun b hb => h b (List.mem_cons_of_mem a hb)),
      Namespaces.get?_bind, if_neg hne]

/-- A variable holds what the last assignment to it so far has stored. -/
theorem get?_scopes {as : List Assignment} {i n : Nat} {a : Assignment} (hi : as[i]? = some a)
    (hn : i < n) (h : ∀ j (b : Assignment), i < j → j < n → as[j]? = some b → b.binds ≠ a.binds) :
    (scopes runtime values as namespaces n).get? a.binds =
      some (a.stored runtime ⟨values, scopes runtime values as namespaces i⟩).result := by
  induction as generalizing namespaces i n with
  | nil => simp at hi
  | cons b as ih =>
    obtain ⟨n, rfl⟩ := Nat.exists_eq_succ_of_ne_zero (Nat.ne_zero_of_lt hn)
    rw [scopes_cons_succ]
    cases i with
    | zero =>
      obtain rfl : b = a := by simpa using hi
      have hlater : ∀ c ∈ as.take n, c.binds ≠ b.binds := by
        intro c hc
        obtain ⟨j, hj⟩ := List.mem_iff_getElem?.mp hc
        rw [List.getElem?_take, Option.ite_none_right_eq_some] at hj
        exact h (j + 1) c (Nat.succ_pos j) (Nat.succ_lt_succ hj.1) hj.2
      rw [scopes, get?_bindAll_of_forall_ne hlater, Namespaces.get?_bind, if_pos rfl, scopes_zero]
    | succ i =>
      exact ih hi (Nat.lt_of_succ_lt_succ hn)
        (fun j c hj hjn hc => h (j + 1) c (Nat.succ_lt_succ hj) (Nat.succ_lt_succ hjn) hc)

/-- However the assignments and the body behind them are bracketed, the right sides are run on the
whole input, each under the variables bound before it. If none raises an exception, the body is run
on the whole input under them all, and a target reads as what was stored in it last. If one does,
its first exception and the variables bound before it are what is left, and nothing is run after
it. -/
theorem eval_of_stages_eq (runtime : Runtime) {values : List Value}
    (hvalues : Stream.raises values = false) (namespaces : Namespaces) (as : List Assignment)
    {body f : Filter} (hf : f.stages = as.map toFilter ++ body.stages) :
    let input : Stream := ⟨values, namespaces⟩
    let under := scopes runtime values as namespaces
    let stored := fun (a : Assignment) i => (a.stored runtime ⟨values, under i⟩).result
    (under 0 = namespaces ∧
      ∀ i (a : Assignment), as[i]? = some a → under (i + 1) = (under i).bind (stored a i) a.binds) ∧
    ((∀ i (a : Assignment), as[i]? = some a → Stream.raises (stored a i) = false) →
      (f.eval runtime input).result = (body.eval runtime ⟨values, under as.length⟩).result ∧
      (f.eval runtime input).calls = (bindAll runtime values as namespaces).calls ++
        (body.eval runtime ⟨values, under as.length⟩).calls) ∧
    (∀ i n (a : Assignment), as[i]? = some a → i < n →
      (∀ j (b : Assignment), i < j → j < n → as[j]? = some b → b.binds ≠ a.binds) →
      ∀ others, Stream.raises others = false →
        a.target.eval runtime ⟨others, under n⟩ = return ⟨stored a i, under n⟩) ∧
    ∀ k (a : Assignment) e, as[k]? = some a →
      (∀ i (b : Assignment), i < k → as[i]? = some b → Stream.raises (stored b i) = false) →
      Stream.firstException? (stored a k) = some e →
      (f.eval runtime input).result = ⟨[e], under k⟩ ∧
      (f.eval runtime input).calls = (bindAll runtime values (as.take k) namespaces).calls ++
        (a.stored runtime ⟨values, under k⟩).calls := by
  intro input under stored
  have hchain : f.eval runtime = (inSequence as body).eval runtime :=
    Filter.eval_eq_of_stages_eq runtime (hf.trans (stages_inSequence as body).symm)
  rw [hchain]
  refine ⟨⟨scopes_zero as, fun i a hi => scopes_succ hi⟩, ?_, ?_, ?_⟩
  · intro hplain
    rw [eval_inSequence_of_raises_eq_false hvalues body hplain]
    simp only [under, scopes_length]
    exact ⟨rfl, rfl⟩
  · intro i n a hi hn hlast others hothers
    exact Filter.eval_of_get? runtime a.target_names (get?_scopes hi hn hlast) hothers
  · intro k a e hk hplain he
    rw [eval_inSequence_of_firstException? hvalues body hk hplain he]
    exact ⟨rfl, by simp [under, scopes]⟩

/-- A variable hides the function of its name, and an assignment that fails leaves what was bound
before it. -/
theorem eval_of_hidden_function :
    let runtime : Runtime := ⟨.standard, .system, .standard⟩
    let values : List Value := [.null, .boolean false]
    let first : Assignment := ⟨.name "true", .local "true", rfl, .string "a"⟩
    let second : Assignment :=
      ⟨.globalVariable (.string "g"), .global "g", rfl, .comma (.name "true") .identity⟩
    let failing : Assignment :=
      ⟨.name "true", .local "true", rfl, .comma (.name "true") (.name "nope")⟩
    let body : Filter := .comma (.globalVariable (.name "g")) (.name "true")
    Stream.raises values = false ∧
      ((Filter.semicolon (.semicolon first.toFilter second.toFilter) body).eval runtime
        ⟨values, .empty⟩).result.values = [.string "a", .null, .boolean false, .string "a"] ∧
      ((Filter.semicolon (.semicolon first.toFilter failing.toFilter)
        (.semicolon second.toFilter body)).eval runtime ⟨values, .empty⟩).result =
        ⟨[(Exception.undefinedName "nope").toValue],
          { Namespaces.empty with locals := [("true", [.string "a"])] }⟩ := by
  intro runtime values first second failing body
  have hvalues : Stream.raises values = false := rfl
  refine ⟨hvalues, ?_, ?_⟩
  · have hstages : (Filter.semicolon (.semicolon first.toFilter second.toFilter) body).stages =
        [first, second].map toFilter ++ body.stages := rfl
    obtain ⟨_, hplain, _⟩ := eval_of_stages_eq runtime hvalues .empty [first, second] hstages
    have hunder : scopes runtime values [first, second] .empty 2 = { Namespaces.empty with
        globals := [("g", [.string "a", .null, .boolean false])]
        locals := [("true", [.string "a"])] } := rfl
    rw [(hplain ?_).1, List.length_cons, List.length_singleton, hunder]
    · rfl
    · rintro (_ | _ | i) a hi
      · cases hi
        rfl
      · cases hi
        rfl
      · cases hi
  · have hstages : (Filter.semicolon (.semicolon first.toFilter failing.toFilter)
        (.semicolon second.toFilter body)).stages =
        [first, failing, second].map toFilter ++ body.stages := rfl
    obtain ⟨_, _, _, hraised⟩ :=
      eval_of_stages_eq runtime hvalues .empty [first, failing, second] hstages
    rw [(hraised 1 failing (Exception.undefinedName "nope").toValue rfl ?_ rfl).1]
    · rfl
    · rintro (_ | i) a hlt hi
      · cases hi
        rfl
      · omega

end Assignment
end QueryShell
