import QueryShell.Proofs.Eval.Bridging
import QueryShell.Proofs.Eval.Course

/-! The courses of a bridge are what the two parties at its ends can come to. -/

namespace QueryShell.Bridging

/-- Whatever order the two parties take their steps in, what is out in the end is one of the courses
of the bridge, if the node made what it did of the values that went into the bridge, and says that
it has read to the end only if it has. -/
theorem bridged_of_steps {making : Making} {input : Stream} {made : Made} {state : State}
    (hrun : Relation.ReflTransGen (Step made.generated.ending)
      (start input.values made.generated.items) state) (hcaller : state.caller = .done)
    (hmade : making { input with values := state.heard ++ state.bridge.values } made)
    (hread : made.atEnd = true → Stream.raises made.generated.values = true ∨
      state.bridge.terminated = true) :
    ∃ passage, Course.bridged making input passage ∧
      state.output = .ofValues passage.output.values := by
  have hinvariant : Invariant made.generated input.values state := invariant_of_steps hrun
  obtain ⟨_, pending, hpending, houtput⟩ := hcaller ▸ hinvariant.phase
  rcases hpending with ⟨rfl, hmoved⟩ | ⟨rfl, _, hunread, hmoved⟩
  · rw [hmoved] at hmade
    exact ⟨_, .prompt hmade, houtput⟩
  · refine ⟨_, .late hmoved hmade ?_, ?_⟩
    · cases hatEnd : made.atEnd with
      | false => exact .inl rfl
      | true =>
        rcases hread hatEnd with hraises | hterminated
        · exact .inr hraises
        · cases hunread.symm.trans hterminated
    · rw [houtput, Option.toList_none, ite_self, List.append_nil]

variable (ending : Ending) (heard : List Value)

/-- The caller moves plain values as long as the worker has not finished. -/
theorem steps_move {moved : List Value} (hmoved : Stream.raises moved = false) (rest : List Value)
    (bridge output : Queue Value) (hopen : bridge.inputClosed = false) (worker : Worker)
    (hworker : worker.isFinished = false) :
    Relation.ReflTransGen (Step ending)
      ⟨.ofValues (moved ++ rest), bridge, output, .looking, worker, heard⟩
      ⟨.ofValues rest, bridge.put moved, output, .looking, worker, heard⟩ := by
  induction moved generalizing bridge with
  | nil =>
    rw [Queue.put_nil]
    exact .refl
  | cons v moved ih =>
    obtain ⟨hv, hmoved⟩ := Bool.or_eq_false_iff.mp hmoved
    have hput : (bridge.put [v]).put moved = bridge.put (v :: moved) := by simp [Queue.put]
    have htake : State.call
        ⟨.ofValues (v :: moved ++ rest), bridge, output, .taking, worker, heard⟩ =
          some ⟨.ofValues (moved ++ rest), bridge.put [v], output, .looking, worker, heard⟩ := by
      simp [State.call, Queue.pop, Queue.ofValues, Queue.emit, hopen, hv]
    refine .head (.call ?_) (.head (.call htake) (hput ▸ ih hmoved _ hopen))
    simp [State.call, hworker]

/-- Where there is no plain value left the caller comes to the exception of the input, or to its
end. -/
theorem exists_steps_settle {rest : List Value} (hrest : Stream.plain rest = [])
    (bridge output : Queue Value) (worker : Worker) (hworker : worker.isFinished = false) :
    ∃ left, Relation.ReflTransGen (Step ending)
      ⟨.ofValues rest, bridge, output, .looking, worker, heard⟩
      ⟨left, bridge, output, .closing (Stream.firstException? rest), worker, heard⟩ := by
  have hlook : State.call ⟨.ofValues rest, bridge, output, .looking, worker, heard⟩ =
      some ⟨.ofValues rest, bridge, output, .taking, worker, heard⟩ := by
    simp [State.call, hworker]
  cases rest with
  | nil => exact ⟨_, .head (.call hlook) (.single (.call rfl))⟩
  | cons v rest =>
    have hv : v.isException = true := by
      cases hv : v.isException with
      | true => rfl
      | false => simp [Stream.plain, hv] at hrest
    refine ⟨.ofValues rest, .head (.call hlook) (.single (.call ?_))⟩
    simp [State.call, Queue.pop, Queue.ofValues, Stream.firstException?, hv]

/-- The node reads all that is in a bridge that is closed. -/
theorem steps_read (vs : List Value) (input output : Queue Value) (caller : Caller)
    (items : List Item) :
    Relation.ReflTransGen (Step ending) ⟨input, .ofValues vs, output, caller, .driving items, heard⟩
      ⟨input, ⟨[], true, true⟩, output, caller, .driving items, heard ++ vs⟩ := by
  induction vs generalizing heard with
  | nil =>
    rw [List.append_nil]
    exact .single (.read rfl)
  | cons v vs ih =>
    rw [List.append_cons]
    exact .head (.read rfl) (ih _)

variable {ending heard} {input bridge : Queue Value} {items : List Item} {vs : List Value}
    {caller : Caller}

theorem drive_of_turn {made : List Value} {next : Worker}
    (h : (Worker.driving items).turn ending = some (made, next)) :
    State.drive ending ⟨input, bridge, Queue.empty.put vs, caller, .driving items, heard⟩ =
      some ⟨input, bridge, Queue.empty.put (vs ++ made), caller, next, heard⟩ := by
  simp only [State.drive, h, Option.map_some, foldl_emit_put]

theorem steps_stop {made : List Value} {raised : Bool}
    (h : (Worker.driving items).turn ending = some (made, .returned raised)) :
    Relation.ReflTransGen (Step ending)
      ⟨input, bridge, Queue.empty.put vs, caller, .driving items, heard⟩
      ⟨input, bridge, Queue.empty.put (vs ++ made), caller, .finished raised, heard⟩ :=
  .head (.drive (drive_of_turn h)) (.single (.drive rfl))

/-- The worker drives the node until it stops, and says that it has finished. -/
theorem steps_drive (ending : Ending) (input bridge : Queue Value) (caller : Caller)
    (heard : List Value) (items : List Item) (vs : List Value) :
    Relation.ReflTransGen (Step ending)
      ⟨input, bridge, Queue.empty.put vs, caller, .driving items, heard⟩
      ⟨input, bridge, Queue.empty.put (vs ++ Generated.values ⟨items, ending⟩), caller,
        .finished (Stream.raises (Generated.values ⟨items, ending⟩)), heard⟩ := by
  induction items generalizing vs with
  | nil =>
    cases ending with
    | finished => exact steps_stop rfl
    | brokenDown message => cases message <;> exact steps_stop rfl
  | cons item items ih =>
    cases item with
    | value v =>
      cases hv : v.isException with
      | true =>
        have hraises : Stream.raises [v] = true := by
          rw [Stream.raises, List.any_cons, hv, Bool.true_or]
        rw [Generated.values_exception hv, hraises]
        exact steps_stop (by rw [Worker.turn, if_pos hv])
      | false =>
        have hturn : (Worker.driving (.value v :: items)).turn ending =
            some ([v], .driving items) := by
          rw [Worker.turn, hv, if_neg Bool.false_ne_true]
        rw [Generated.values_plain hv, List.append_cons, Stream.raises, List.any_cons, hv,
          Bool.false_or]
        exact .head (.drive (drive_of_turn hturn)) (ih (vs ++ [v]))
    | fault e =>
      cases he : e.isCancelled with
      | true =>
        rw [Generated.values_cancelled he]
        exact steps_stop (by rw [Worker.turn, if_pos he]; rfl)
      | false =>
        rw [Generated.values_fault he]
        exact steps_stop (by rw [Worker.turn, he, if_neg Bool.false_ne_true]; rfl)

/-- The caller closes the bridge if it has not yet, waits for the worker and puts out what is
pending. -/
theorem steps_join (ending : Ending) (heard : List Value) (input bridge : Queue Value)
    (pending : Option Value) (generated : Generated) :
    Relation.ReflTransGen (Step ending)
      ⟨input, bridge, Queue.empty.put generated.values, .joining pending,
        .finished (Stream.raises generated.values), heard⟩
      ⟨input, bridge, .ofValues (generated.followedBy pending), .done,
        .finished (Stream.raises generated.values), heard⟩ := by
  refine .single (.call ?_)
  simp only [State.call, foldl_emit_put, finish_put, Generated.followedBy]

theorem exists_rest (values : List Value) :
    ∃ rest, values = Stream.plain values ++ rest ∧ Stream.plain rest = [] ∧
      Stream.firstException? rest = Stream.firstException? values := by
  induction values with
  | nil => exact ⟨[], rfl, rfl, rfl⟩
  | cons v vs ih =>
    cases hv : v.isException with
    | true => exact ⟨v :: vs, by simp [Stream.plain, hv], by simp [Stream.plain, hv], rfl⟩
    | false =>
      obtain ⟨rest, hvalues, hrest, hfirst⟩ := ih
      refine ⟨rest, ?_, hrest, ?_⟩
      · rw [Stream.plain, List.takeWhile_cons_of_pos (by simp [hv]), List.cons_append]
        exact congrArg (v :: ·) hvalues
      · rw [hfirst, Stream.firstException?, Stream.firstException?,
          List.find?_cons_of_neg (by simp [hv])]

/-- Where the caller comes to the end first, it does so before the worker has taken a step. -/
theorem exists_steps_prompt (generated : Generated) (values : List Value) :
    ∃ state, Relation.ReflTransGen (Step generated.ending) (start values generated.items) state ∧
      state.caller = .done ∧ state.heard ++ state.bridge.values = Stream.plain values ∧
      state.bridge.terminated = true ∧
      state.output = .ofValues (generated.followedBy (Stream.firstException? values)) := by
  obtain ⟨rest, hvalues, hrest, hfirst⟩ := exists_rest values
  have hmove := steps_move generated.ending [] (Stream.raises_plain values) rest .empty .empty rfl
    (.driving generated.items) rfl
  obtain ⟨left, hsettle⟩ := exists_steps_settle generated.ending [] hrest
    (Queue.empty.put (Stream.plain values)) .empty (.driving generated.items) rfl
  have hread := steps_read generated.ending [] (Stream.plain values) left .empty
    (.joining (Stream.firstException? rest)) generated.items
  have hdrive := steps_drive generated.ending left ⟨[], true, true⟩
    (.joining (Stream.firstException? rest)) (Stream.plain values) generated.items []
  have hjoin := steps_join generated.ending (Stream.plain values) left ⟨[], true, true⟩
    (Stream.firstException? rest) generated
  rw [← hvalues] at hmove
  rw [← finish_put] at hread
  refine ⟨_, (hmove.trans hsettle).trans (.head (.call rfl) (hread.trans (hdrive.trans hjoin))),
    rfl, ?_, rfl, ?_⟩
  · exact List.append_nil _
  · rw [hfirst]

/-- Where the caller has moved so many values, the worker may finish before it looks again. -/
theorem exists_steps_late (generated : Generated) {values moved : List Value}
    (hmoved : moved <+: Stream.plain values) :
    ∃ state, Relation.ReflTransGen (Step generated.ending) (start values generated.items) state ∧
      state.caller = .done ∧ state.heard ++ state.bridge.values = moved ∧
      state.output = .ofValues generated.values := by
  obtain ⟨rest, hvalues, -, -⟩ := exists_rest values
  obtain ⟨more, hmore⟩ := hmoved
  have hplain : Stream.raises moved = false := by
    have hraises := Stream.raises_plain values
    rw [← hmore, Stream.raises_append] at hraises
    exact (Bool.or_eq_false_iff.mp hraises).1
  have hmove := steps_move generated.ending [] hplain (more ++ rest) .empty .empty rfl
    (.driving generated.items) rfl
  have hdrive := steps_drive generated.ending (.ofValues (more ++ rest)) (Queue.empty.put moved)
    .looking [] generated.items []
  have hjoin :=
    steps_join generated.ending [] (.ofValues (more ++ rest)) (.ofValues moved) none generated
  rw [← List.append_assoc, hmore, ← hvalues] at hmove
  rw [← finish_put] at hjoin
  refine ⟨_, hmove.trans (hdrive.trans (.head (.call rfl) (.head (.call rfl) hjoin))), rfl, ?_, ?_⟩
  · exact (congrArg Queue.values (finish_put moved)).trans (Queue.values_made (some moved))
  · rw [Generated.followedBy_none]

/-- What is out after all steps of the two parties is a course of the bridge, and every course of
the bridge is what is out after some steps of theirs. -/
theorem exists_bridged_iff_steps {making : Making} {input : Stream} {out : List Value} :
    (∃ passage, Course.bridged making input passage ∧ passage.output.values = out) ↔
    ∃ made state, Relation.ReflTransGen (Step made.generated.ending)
        (start input.values made.generated.items) state ∧
      state.caller = .done ∧
      making { input with values := state.heard ++ state.bridge.values } made ∧
      (made.atEnd = true → Stream.raises made.generated.values = true ∨
        state.bridge.terminated = true) ∧
      state.output = .ofValues out := by
  constructor
  · rintro ⟨_, @⟨made, hmade⟩ | @⟨moved, hmoved, made, hmade, hstop⟩, rfl⟩
    · obtain ⟨state, hrun, hcaller, hvalues, hterminated, houtput⟩ :=
        exists_steps_prompt made.generated input.values
      exact ⟨made, state, hrun, hcaller, hvalues ▸ hmade, fun _ => .inr hterminated, houtput⟩
    · obtain ⟨state, hrun, hcaller, hvalues, houtput⟩ := exists_steps_late made.generated hmoved
      refine ⟨made, state, hrun, hcaller, hvalues ▸ hmade, fun hatEnd => ?_, houtput⟩
      exact .inl (hstop.resolve_left (by simp [hatEnd]))
  · rintro ⟨made, state, hrun, hcaller, hmade, hread, houtput⟩
    obtain ⟨passage, hbridged, hpassage⟩ := bridged_of_steps hrun hcaller hmade hread
    refine ⟨passage, hbridged, ?_⟩
    have hvalues := congrArg Queue.values (hpassage.symm.trans houtput)
    exact (Queue.values_made (some _)).symm.trans (hvalues.trans (Queue.values_made (some _)))

end QueryShell.Bridging
