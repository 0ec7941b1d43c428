import LedgerReport.Expression.Stack
import LedgerReport.Proofs.Expression.Meaning
/-!
The chain and the set of a stack stay in step.

A stack whose set holds what is on its chain, with nothing twice, refuses a reference exactly as its
chain alone would (`Stack.enter_run`), and a block that ends takes out of both what it has put into
both (`Stack.close_run`). So whatever blocks do, the stack is known from the references that they
have entered and not left (`Nesting.InStep.eq_of_blocks`); that is why the end of a block brings
back the state before its start.
-/

set_option autoImplicit false

namespace LedgerReport

theorem Attempt.run_finally {σ α : Type} {x : Attempt σ α} {y : Attempt σ Unit} {b b' b'' : σ}
    {outcome : Except Error α} (hx : x.run b = (outcome, b')) (hy : y.run b' = (.ok (), b'')) :
    (tryFinally x y).run b = (outcome, b'') := by
  change x b = (outcome, b') at hx
  change y b' = (.ok (), b'') at hy
  cases outcome
  all_goals
    simp only [tryFinally, MonadFinally.tryFinally', Functor.map, ExceptT.map, ExceptT.mk,
      ExceptT.run, bind, StateT.bind, hx, hy]
    rfl

namespace Stack
variable {s : Stack} {ref : Reference}

structure InStep (s : Stack) : Prop where
  nodup : s.chain.Nodup
  mem_active : ∀ ref, ref ∈ s.active ↔ ref ∈ s.chain

theorem inStep_empty : empty.InStep :=
  ⟨.nil, fun ref => by simp [empty]⟩

theorem InStep.eq_of_chain {s s' : Stack} (h : s.InStep) (h' : s'.InStep)
    (hc : s.chain = s'.chain) : s = s' := by
  obtain ⟨chain, active⟩ := s
  obtain ⟨chain', active'⟩ := s'
  obtain rfl : chain = chain' := hc
  have ha : active = active' := Std.ExtHashSet.ext_mem fun ref => by
    rw [h.mem_active ref, h'.mem_active ref]
  rw [ha]

theorem InStep.contains_iff (h : s.InStep) (ref : Reference) :
    s.contains ref = true ↔ ref ∈ s.chain := by
  rw [contains, Std.ExtHashSet.contains_iff_mem, h.mem_active]

theorem refusal_eq (h : ref ∈ s.chain) : s.refusal ref = s.chain.cycleError ref := by
  obtain ⟨before, inner, hc, hfree⟩ := List.eq_append_cons_of_mem h
  have hplace : (before ++ ref :: inner).idxOf? ref = some before.length := by
    refine List.idxOf?_eq_some_iff.2 ⟨by simp, by simp, fun j hj => ?_⟩
    rw [List.getElem_append_left hj]
    exact ne_of_mem_of_not_mem (List.getElem_mem hj) hfree
  have hcycle : Chain.cycle (before ++ ref :: inner) ref = ref :: inner ++ [ref] := by
    rw [Chain.cycle_append _ hfree]
    simp [Chain.cycle]
  rw [refusal, Chain.cycleError, hc, hplace, hcycle]
  simp

theorem enter_run (h : s.InStep) (ref : Reference) :
    (enter ref).run s = match s.chain.enter ref with
      | .ok chain => (.ok (), ⟨chain, s.active.insert ref⟩)
      | .error e => (.error e, s) := by
  rw [enter, Attempt.run_bind_ok _ Attempt.run_get, Chain.enter]
  by_cases hr : ref ∈ s.chain
  · rw [if_pos ((h.contains_iff ref).2 hr), if_pos hr, refusal_eq hr]
    rfl
  · rw [if_neg fun hc => hr ((h.contains_iff ref).1 hc), if_neg hr]
    rfl

theorem InStep.insert (h : s.InStep) (hr : ref ∉ s.chain) :
    InStep ⟨s.chain ++ [ref], s.active.insert ref⟩ where
  nodup := List.nodup_append.2 ⟨h.nodup, by simp, fun a ha b hb hab =>
    hr (List.mem_singleton.1 hb ▸ hab ▸ ha)⟩
  mem_active other := by
    rw [Std.ExtHashSet.mem_insert, h.mem_active, List.mem_append, List.mem_singleton, beq_iff_eq,
      eq_comm, or_comm]

/-- A block that ends leaves the stack without its reference, if that is the innermost one. -/
theorem close_run {chain : Chain} (hc : s.chain = chain ++ [ref])
    (outcome : Except Error Unit) :
    (close ref outcome).run s = (outcome, ⟨chain, s.active.erase ref⟩) := by
  have hleave : (leave ref).run s = (.ok (), ⟨chain, s.active.erase ref⟩) := by
    rw [leave, Attempt.run_bind_ok _ Attempt.run_get, if_neg (by simp [hc])]
    change ((.ok (), ⟨s.chain.dropLast, s.active.erase ref⟩) : Except Error Unit × Stack) = _
    rw [hc, List.dropLast_concat]
  refine Attempt.run_finally ?_ hleave
  cases outcome <;> rfl

theorem InStep.erase {chain : Chain} (h : s.InStep) (hc : s.chain = chain ++ [ref]) :
    InStep ⟨chain, s.active.erase ref⟩ := by
  obtain ⟨hchain, -, hfree⟩ := List.nodup_append.1 (hc ▸ h.nodup)
  refine ⟨hchain, fun other => ?_⟩
  rw [Std.ExtHashSet.mem_erase, h.mem_active, hc, List.mem_append, List.mem_singleton]
  constructor
  · rintro ⟨hne, hm | rfl⟩
    · exact hm
    · simp at hne
  · intro hm
    exact ⟨by simpa using (hfree other hm ref (List.mem_singleton.2 rfl)).symm, .inl hm⟩

end Stack

namespace Nesting
variable {n n' : Nesting} {ref : Reference}

/-- Whether the stack is in step, and its chain holds what the blocks have entered. -/
structure InStep (n : Nesting) : Prop where
  stack : n.stack.InStep
  chain : n.stack.chain = n.blocks.reverse

theorem inStep_start : start.InStep := ⟨Stack.inStep_empty, rfl⟩

theorem InStep.eq_of_blocks (h : n.InStep) (h' : n'.InStep) (hb : n.blocks = n'.blocks) :
    n = n' := by
  have hs : n.stack = n'.stack := h.stack.eq_of_chain h'.stack (by rw [h.chain, h'.chain, hb])
  obtain ⟨stack, blocks⟩ := n
  obtain rfl : stack = n'.stack := hs
  obtain rfl : blocks = n'.blocks := hb
  rfl

theorem InStep.refuses (h : n.InStep) (hr : ref ∈ n.stack.chain) :
    n.next (.enter ref) = (.error (n.stack.chain.cycleError ref), n) := by
  have hrun := Stack.enter_run h.stack ref
  rw [Chain.enter, if_pos hr] at hrun
  simp only [next, hrun]

theorem InStep.enters (h : n.InStep) (hr : ref ∉ n.stack.chain) :
    ∃ entered, n.next (.enter ref) = (.ok (), entered) ∧ entered.InStep ∧
      entered.blocks = ref :: n.blocks := by
  have hrun := Stack.enter_run h.stack ref
  rw [Chain.enter, if_neg hr] at hrun
  refine ⟨⟨⟨n.stack.chain ++ [ref], n.stack.active.insert ref⟩, ref :: n.blocks⟩, ?_,
    ⟨h.stack.insert hr, ?_⟩, rfl⟩
  · simp only [next, hrun]
  · rw [h.chain, List.reverse_cons]

theorem InStep.leaves (h : n.InStep) {blocks : List Reference} (hb : n.blocks = ref :: blocks)
    (outcome : Except Error Unit) :
    ∃ left, n.next (.exit outcome) = (outcome, left) ∧ left.InStep ∧ left.blocks = blocks := by
  have hc : n.stack.chain = blocks.reverse ++ [ref] := by rw [h.chain, hb, List.reverse_cons]
  refine ⟨⟨⟨blocks.reverse, n.stack.active.erase ref⟩, blocks⟩, ?_, ⟨h.stack.erase hc, rfl⟩, rfl⟩
  simp only [next, hb, Stack.close_run hc]

theorem InStep.next (h : n.InStep) (event : BlockEvent) : (n.next event).2.InStep := by
  cases event with
  | enter ref =>
    by_cases hr : ref ∈ n.stack.chain
    · rw [h.refuses hr]
      exact h
    · obtain ⟨entered, he, hentered, -⟩ := h.enters hr
      rwa [he]
  | exit outcome =>
    cases hb : n.blocks with
    | nil =>
      have hnone : n.next (.exit outcome) = (.ok (), n) := by simp only [Nesting.next, hb]
      rwa [hnone]
    | cons ref blocks =>
      obtain ⟨left, hl, hleft, -⟩ := h.leaves hb outcome
      rwa [hl]

theorem after_cons {event : BlockEvent} {outcome : Except Error Unit}
    (h : n.next event = (outcome, n')) (events : List BlockEvent) :
    n.after (event :: events) = n'.after events := by
  rw [after, List.foldl_cons, h]
  rfl

theorem InStep.after (h : n.InStep) (events : List BlockEvent) : (n.after events).InStep := by
  induction events generalizing n with
  | nil => exact h
  | cons event events ih => exact ih (h.next event)

/-- Whether some events end the blocks that start among them, and no other block. -/
structure Closes (n : Nesting) (events : List BlockEvent) : Prop where
  keeps : ∀ k, n.blocks <:+ (n.after (events.take k)).blocks
  ends : (n.after events).blocks = n.blocks

/-- Whatever blocks have started and ended, well or with errors, the chain holds no reference twice,
and what is active is what is on it. A block is refused exactly if its reference is on the chain; it
is told the chain from there on, and changes nothing. The end of a block brings back the state in
which it was started. -/
theorem after_keeps (events : List BlockEvent) :
    (start.after events).stack.chain.Nodup ∧
    (∀ ref, (start.after events).stack.contains ref = true ↔
      ref ∈ (start.after events).stack.chain) ∧
    (∀ ref, ref ∉ (start.after events).stack.chain →
      ∃ entered, (start.after events).next (.enter ref) = (.ok (), entered) ∧
        entered.stack.chain = (start.after events).stack.chain ++ [ref]) ∧
    (∀ before ref inner, (start.after events).stack.chain = before ++ ref :: inner →
      (start.after events).next (.enter ref) =
        (.error (.circularDependency ((ref :: inner ++ [ref]).map Reference.text)),
          start.after events)) ∧
    ∀ ref entered, (start.after events).next (.enter ref) = (.ok (), entered) →
      ∀ inner, entered.Closes inner → ∀ outcome,
        (entered.after inner).next (.exit outcome) = (outcome, start.after events) := by
  have h : (start.after events).InStep := inStep_start.after events
  generalize start.after events = n at h
  refine ⟨h.stack.nodup, h.stack.contains_iff, fun ref hr => ?_, fun before ref inner hc => ?_,
    fun ref entered he inner hi outcome => ?_⟩
  · obtain ⟨entered, he, hentered, hb⟩ := h.enters hr
    exact ⟨entered, he, by rw [hentered.chain, hb, List.reverse_cons, h.chain]⟩
  · have hfree : ref ∉ before := fun hb =>
      (List.nodup_append.1 (hc ▸ h.stack.nodup)).2.2 ref hb ref List.mem_cons_self rfl
    rw [h.refuses (hc ▸ List.mem_append_right before List.mem_cons_self), hc, Chain.cycleError,
      Chain.cycle_append _ hfree]
    simp [Chain.cycle]
  · -- the state is known from its blocks, which are those of before when the block has ended
    have hr : ref ∉ n.stack.chain := by
      intro hr
      rw [h.refuses hr] at he
      cases he
    obtain ⟨entered', he', hentered, hb⟩ := h.enters hr
    obtain rfl : entered' = entered := (Prod.mk.inj (he'.symm.trans he)).2
    obtain ⟨left, hl, hleft, hblocks⟩ :=
      (hentered.after inner).leaves (hi.ends.trans hb) outcome
    rw [hl, hleft.eq_of_blocks h hblocks]

/-- A block that enters a reference again in an inner block is refused, and with that error both
blocks end. -/
theorem after_keeps_reentered : ∃ entered e,
    start.next (.enter (.name "a")) = (.ok (), entered) ∧
      entered.Closes [.enter (.name "b"), .enter (.name "a"), .exit (.error e)] ∧
      (entered.after [.enter (.name "b"), .enter (.name "a"), .exit (.error e)]).next
        (.exit (.error e)) = (.error e, start) := by
  obtain ⟨entered, he, hentered, hb⟩ :=
    inStep_start.enters (show Reference.name "a" ∉ start.stack.chain from nofun)
  obtain ⟨inner, hi, hinner, hb'⟩ := hentered.enters
    (show Reference.name "b" ∉ entered.stack.chain by rw [hentered.chain, hb]; decide)
  have hr := hinner.refuses
    (show Reference.name "a" ∈ inner.stack.chain by rw [hinner.chain, hb', hb]; decide)
  generalize inner.stack.chain.cycleError (.name "a") = e at hr
  obtain ⟨left, hl, -, hblocks⟩ := hinner.leaves hb' (.error e)
  have hcloses : entered.Closes [.enter (.name "b"), .enter (.name "a"), .exit (.error e)] := by
    have hlast : (entered.after
        [.enter (.name "b"), .enter (.name "a"), .exit (.error e)]).blocks = entered.blocks := by
      rw [after_cons hi, after_cons hr, after_cons hl]
      exact hblocks
    refine ⟨fun k => ?_, hlast⟩
    match k with
    | 0 => exact List.suffix_refl _
    | 1 =>
      rw [List.take_succ_cons, List.take_zero, after_cons hi]
      exact hb' ▸ List.suffix_cons _ _
    | 2 =>
      rw [List.take_succ_cons, List.take_succ_cons, List.take_zero, after_cons hi, after_cons hr]
      exact hb' ▸ List.suffix_cons _ _
    | k + 3 =>
      exact ⟨[], by rw [List.take_of_length_le (Nat.le_add_left 3 k), hlast, List.nil_append]⟩
  exact ⟨entered, e, he, hcloses, (after_keeps []).2.2.2.2 _ _ he _ hcloses _⟩

end Nesting
end LedgerReport
