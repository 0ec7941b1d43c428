import LedgerReport.Proofs.Expression.Context
import LedgerReport.Proofs.Report.Cycles
/-!
What look-ups keep does not change what later look-ups come to.

`Resolves` says which value a reference has by its definitions, in whatever order they are used;
`Definitions.direct` finds a value under a chain without keeping any. A look-up comes to what is
found directly from the values that were set at first, also after other look-ups (`lookup_yields`):
a value that was kept is that of its reference (`Keeps`), whose resolution needs nothing that is
under resolution by then (`Resolves.direct`).
-/

set_option autoImplicit false

namespace LedgerReport

def outcomeWith (find : Site → Reference → Except Error Amount) (text : String) :
    Except Error Amount :=
  match Node.read text with
  | .ok node => node.outcome fun ref position => find ⟨some text, some position⟩ ref
  | .error e => .error e

namespace Definition

def needs : Definition → List Reference
  | .expression text =>
    match Node.read text with
    | .ok node => node.occurrences
    | .error _ => []
  | _ => []

/-- The value that a definition gives, given what is found for a reference. -/
def outcome (find : Site → Reference → Except Error Amount) : Definition → Except Error Amount
  | .value a => .ok a
  | .refused e => .error e
  | .expression text => outcomeWith find text

variable {find find' : Site → Reference → Except Error Amount}

theorem outcome_congr (d : Definition)
    (h : ∀ need ∈ d.needs, ∀ site, find site need = find' site need) :
    d.outcome find = d.outcome find' := by
  cases d with
  | value a => rfl
  | refused e => rfl
  | expression text =>
    cases hn : Node.read text with
    | error e => simp only [outcome, outcomeWith, hn]
    | ok node =>
      simp only [needs, outcome, outcomeWith, hn] at h ⊢
      exact node.outcome_congr fun ref hm position => h ref hm _

theorem outcome_assigned {σ : Reference → Amount} {a : Amount} (d : Definition)
    (hσ : ∀ need ∈ d.needs, ∀ site x, find site need = .ok x → σ need = x)
    (ho : d.outcome find = .ok a) :
    (∀ need ∈ d.needs, ∃ site, find site need = .ok (σ need)) ∧
      d.outcome (fun _ need => .ok (σ need)) = .ok a := by
  cases d with
  | value x => exact ⟨by simp [needs], ho⟩
  | refused e => cases ho
  | expression text =>
    cases hn : Node.read text with
    | error e => simp [outcome, outcomeWith, hn] at ho
    | ok node =>
      simp only [needs, outcome, outcomeWith, hn] at hσ ho ⊢
      obtain ⟨hfound, hvalue⟩ :=
        node.outcome_assigned (fun ref hm position x => hσ ref hm _ x) ho
      refine ⟨fun ref hm => ?_, hvalue⟩
      obtain ⟨position, h⟩ := hfound ref hm
      exact ⟨_, h⟩

theorem resolve_yields {S : Type} {inv : S → Prop} {lookup : Site → Reference → Attempt S Amount}
    (d : Definition)
    (h : ∀ need ∈ d.needs, ∀ site, Attempt.Yields inv (lookup site need) (find site need)) :
    Attempt.Yields inv (d.resolve lookup) (d.outcome find) := by
  cases d with
  | value a => exact Attempt.yields_pure inv a
  | refused e => exact Attempt.yields_throw inv e
  | expression text =>
    simp only [resolve, outcome, evaluateWith, outcomeWith]
    cases hn : Node.read text with
    | error e => exact Attempt.yields_throw inv e
    | ok node =>
      simp only [needs, hn] at h
      exact node.value_yields fun ref hm position => h ref hm _

end Definition

namespace Definitions
variable {ds : Definitions} {b : Bindings} {chain entered : Chain} {ref need : Reference}
  {d : Definition} {site : Site}

def besides (ds : Definitions) (chain : Chain) : Definitions :=
  ds.filter fun d => d.1 ∉ chain

theorem getPair?_besides (ds : Definitions) (chain : Chain) (ref : Reference) :
    getPair? ref (ds.besides chain) = if ref ∈ chain then none else getPair? ref ds := by
  refine (getPair?_filter (fun other => decide (other ∉ chain)) ref ds).trans ?_
  by_cases h : ref ∈ chain <;> simp [h]

theorem length_besides_lt (hr : ref ∉ chain) (hd : getPair? ref ds = some d) :
    (ds.besides (chain ++ [ref])).length < (ds.besides chain).length := by
  have hsplit : ds.besides (chain ++ [ref]) = (ds.besides chain).without ref := by
    unfold besides without
    rw [List.filter_filter]
    refine List.filter_congr fun p _ => ?_
    simp [and_comm]
  rw [hsplit]
  exact length_without_lt (by rw [getPair?_besides, if_neg hr, hd])

def direct (ds : Definitions) (b : Bindings) (chain : Chain) (site : Site) (ref : Reference) :
    Except Error Amount :=
  match b.get? ref with
  | some a => .ok a
  | none =>
    match _he : chain.enter ref with
    | .error e => .error e
    | .ok entered =>
      match _hd : getPair? ref ds with
      | none => .error (ref.undefinedError site)
      | some d => d.outcome fun site ref' => ds.direct b entered site ref'
termination_by (ds.besides chain).length
decreasing_by
  obtain ⟨hr, rfl⟩ := Chain.enter_ok _he
  exact length_besides_lt hr _hd

theorem direct_bound {a : Amount} (h : b.get? ref = some a) :
    ds.direct b chain site ref = .ok a := by
  rw [direct.eq_def]
  simp only [h]

theorem direct_entered {e : Error} (h : b.get? ref = none) (he : chain.enter ref = .error e) :
    ds.direct b chain site ref = .error e := by
  rw [direct.eq_def]
  simp only [h]
  split <;> rename_i hs <;> rw [he] at hs <;> cases hs
  rfl

theorem direct_undefined (h : b.get? ref = none) (he : chain.enter ref = .ok entered)
    (hd : getPair? ref ds = none) :
    ds.direct b chain site ref = .error (ref.undefinedError site) := by
  rw [direct.eq_def]
  simp only [h]
  split
  · rename_i hs
    rw [he] at hs
    cases hs
  · split
    · rfl
    · rename_i hs
      rw [hd] at hs
      cases hs

theorem direct_defined (h : b.get? ref = none) (he : chain.enter ref = .ok entered)
    (hd : getPair? ref ds = some d) :
    ds.direct b chain site ref = d.outcome fun site ref' => ds.direct b entered site ref' := by
  rw [direct.eq_def]
  simp only [h]
  split
  · rename_i hs
    rw [he] at hs
    cases hs
  · rename_i hs
    rw [he] at hs
    cases hs
    split
    · rename_i hs
      rw [hd] at hs
      cases hs
    · rename_i hs
      rw [hd] at hs
      cases hs
      rfl

/-- The graph of the references without a value: each needs what its definition names. -/
def graph (ds : Definitions) (b : Bindings) : Graph :=
  ds.map fun p =>
    (p.1, match b.get? p.1 with
      | some _ => []
      | none => p.2.needs)

theorem needs_graph_iff : (ds.graph b).Needs ref need ↔
    b.get? ref = none ∧ ∃ d, getPair? ref ds = some d ∧ need ∈ d.needs := by
  have hget : getPair? ref (ds.graph b) = (getPair? ref ds).map fun d =>
      match b.get? ref with
      | some _ => []
      | none => d.needs := by
    unfold graph
    induction ds with
    | nil => rfl
    | cons p r ih =>
      unfold getPair? at ih ⊢
      by_cases hp : p.1 = ref
      · subst hp
        simp
      · simpa [hp] using ih
  unfold Graph.Needs
  rw [hget]
  cases b.get? ref with
  | some a => simp
  | none => simp

theorem transGen_snoc {path : Chain} (hp : ∀ c ∈ path, Relation.TransGen (ds.graph b).Needs c ref)
    (hn : (ds.graph b).Needs ref need) :
    ∀ c ∈ path ++ [ref], Relation.TransGen (ds.graph b).Needs c need := by
  intro c hc
  rcases List.mem_append.1 hc with hc | hc
  · exact (hp c hc).tail hn
  · exact List.mem_singleton.1 hc ▸ .single hn

end Definitions

/-- Which value a reference has: the one that is set, or else the one that its definition gives by
the values of what it names. -/
inductive Resolves (ds : Definitions) (b : Bindings) : Reference → Amount → Prop where
  | bound {ref : Reference} {a : Amount} (h : b.get? ref = some a) : Resolves ds b ref a
  | defined {ref : Reference} {d : Definition} {a : Amount} (h : b.get? ref = none)
      (hd : getPair? ref ds = some d) (σ : Reference → Amount)
      (hσ : ∀ need ∈ d.needs, Resolves ds b need (σ need))
      (ho : d.outcome (fun _ need => .ok (σ need)) = .ok a) : Resolves ds b ref a

namespace Resolves
variable {ds : Definitions} {b : Bindings} {ref : Reference} {a a' : Amount} {S : Chain}

theorem unique (h : Resolves ds b ref a) (h' : Resolves ds b ref a') : a = a' := by
  induction h generalizing a' with
  | bound hb =>
    cases h' with
    | bound hb' => exact Option.some.inj (hb.symm.trans hb')
    | defined hb' => rw [hb] at hb'; cases hb'
  | defined hb hd σ hσ ho ih =>
    cases h' with
    | bound hb' => rw [hb] at hb'; cases hb'
    | defined hb' hd' τ hτ ho' =>
      cases hd.symm.trans hd'
      rw [Definition.outcome_congr _ fun need hm _ => congrArg Except.ok (ih need hm (hτ need hm)),
        ho'] at ho
      exact Except.ok.inj ho.symm

theorem exists_assignment (ds : Definitions) (b : Bindings) :
    ∃ σ : Reference → Amount, ∀ ref a, Resolves ds b ref a → σ ref = a := by
  classical
  refine ⟨fun ref => if h : ∃ a, Resolves ds b ref a then h.choose else none, fun ref a h => ?_⟩
  have hex : ∃ a, Resolves ds b ref a := ⟨a, h⟩
  exact (dif_pos hex).trans (hex.choose_spec.unique h)

theorem besides (h : Resolves (ds.besides S) b ref a) : Resolves ds b ref a := by
  induction h with
  | bound hb => exact .bound hb
  | defined hb hd σ _ ho ih =>
    rw [Definitions.getPair?_besides] at hd
    split at hd
    · cases hd
    · exact .defined hb hd σ ih ho

theorem mono {chain : Chain} (hs : ∀ ref ∈ S, ref ∈ chain)
    (h : Resolves (ds.besides chain) b ref a) : Resolves (ds.besides S) b ref a := by
  induction h with
  | bound hb => exact .bound hb
  | @defined ref d a hb hd σ _ ho ih =>
    refine .defined hb ?_ σ ih ho
    rw [Definitions.getPair?_besides] at hd ⊢
    split at hd
    · cases hd
    · rename_i hr
      rw [if_neg fun h => hr (hs ref h), hd]

theorem of_needs {need : Reference} (h : Resolves (ds.besides S) b ref a)
    (hn : (ds.graph b).Needs ref need) : ∃ x, Resolves (ds.besides S) b need x := by
  obtain ⟨hb, d, hd, hneed⟩ := Definitions.needs_graph_iff.1 hn
  cases h with
  | bound hb' => rw [hb] at hb'; cases hb'
  | defined _ hd' σ hσ _ =>
    rw [Definitions.getPair?_besides] at hd'
    split at hd'
    · cases hd'
    · cases hd.symm.trans hd'
      exact ⟨_, hσ need hneed⟩

theorem settled (h : Resolves (ds.besides S) b ref a) : (ds.graph b).Settled ref := by
  induction h with
  | bound hb =>
    refine Acc.intro _ fun need hn => ?_
    rw [(Definitions.needs_graph_iff.1 hn).1] at hb
    cases hb
  | @defined ref d a hb hd σ _ _ ih =>
    refine Acc.intro _ fun need hn => ?_
    obtain ⟨-, d', hd', hneed⟩ := Definitions.needs_graph_iff.1 hn
    rw [Definitions.getPair?_besides] at hd
    split at hd
    · cases hd
    · cases hd.symm.trans hd'
      exact ih need hneed

/-- A reference whose value needs nothing on a stack has that value also under further references
that lead to it. -/
theorem direct (h : Resolves (ds.besides S) b ref a) (path : Chain) (site : Site)
    (hp : ∀ c ∈ path, Relation.TransGen (ds.graph b).Needs c ref) :
    ds.direct b (S ++ path) site ref = .ok a := by
  induction h generalizing path site with
  | bound hb => exact Definitions.direct_bound hb
  | @defined ref d a hb hd σ hσ ho ih =>
    have hsettled := (Resolves.defined hb hd σ hσ ho).settled
    rw [Definitions.getPair?_besides] at hd
    split at hd
    · cases hd
    · rename_i hs
      have hfree : ref ∉ S ++ path := by
        rw [List.mem_append, not_or]
        exact ⟨hs, fun hm => hsettled.not_transGen (hp ref hm)⟩
      have hsteps : ∀ need ∈ d.needs, ∀ site,
          ds.direct b (S ++ path ++ [ref]) site need = .ok (σ need) := by
        intro need hneed site
        have hedge : (ds.graph b).Needs ref need :=
          Definitions.needs_graph_iff.2 ⟨hb, d, hd, hneed⟩
        rw [List.append_assoc]
        exact ih need hneed _ site (Definitions.transGen_snoc hp hedge)
      rw [Definitions.direct_defined hb (if_neg hfree) hd, d.outcome_congr hsteps, ho]

end Resolves

namespace Definitions
variable {ds : Definitions} {b : Bindings} {S : Chain}

theorem resolves_of_direct {chain : Chain} {site : Site} {ref : Reference} {a : Amount}
    (h : ds.direct b chain site ref = .ok a) : Resolves (ds.besides chain) b ref a := by
  induction chain, site, ref using direct.induct ds b generalizing a with
  | case1 chain site ref x hb =>
    rw [direct_bound hb] at h
    cases h
    exact .bound hb
  | case2 chain site ref hb e he =>
    rw [direct_entered hb he] at h
    cases h
  | case3 chain site ref hb entered he hd =>
    rw [direct_undefined hb he hd] at h
    cases h
  | case4 chain site ref hb entered he d hd ih =>
    obtain ⟨hfree, rfl⟩ := Chain.enter_ok he
    rw [direct_defined hb he hd] at h
    obtain ⟨σ, hσ⟩ := Resolves.exists_assignment (ds.besides (chain ++ [ref])) b
    obtain ⟨hfound, ho⟩ := d.outcome_assigned
      (fun need _ site x hx => hσ need x (ih site need hx)) h
    refine .defined hb (by rw [getPair?_besides, if_neg hfree, hd]) σ (fun need hm => ?_) ho
    obtain ⟨site, hx⟩ := hfound need hm
    exact (ih site need hx).mono fun c hc => List.mem_append_left _ hc

/-- Whether the values that are set are those that were set at first, and values that references
have without what is on a stack. -/
structure Keeps (ds : Definitions) (b : Bindings) (S : Chain) (b' : Bindings) : Prop where
  bound : ∀ ref a, b.get? ref = some a → b'.get? ref = some a
  resolves : ∀ ref a, b'.get? ref = some a → Resolves (ds.besides S) b ref a

theorem Keeps.refl (ds : Definitions) (b : Bindings) (S : Chain) : Keeps ds b S b :=
  ⟨fun _ _ h => h, fun _ _ h => .bound h⟩

theorem Keeps.set {b' : Bindings} {ref : Reference} {a : Amount} (h : Keeps ds b S b')
    (hb : b.get? ref = none) (hr : Resolves (ds.besides S) b ref a) :
    Keeps ds b S (b'.set ref a) := by
  refine ⟨fun other x hx => ?_, fun other x hx => ?_⟩
  · have hne : other ≠ ref := fun he => by rw [he, hb] at hx; cases hx
    rw [Bindings.get?_set_of_ne b' a hne, h.bound other x hx]
  · by_cases he : other = ref
    · subst he
      rw [Bindings.get?_set_self, Option.some.injEq] at hx
      exact hx ▸ hr
    · rw [Bindings.get?_set_of_ne b' a he] at hx
      exact h.resolves other x hx

theorem lookup_yields_under (remaining : Definitions) (path : Chain) (site : Site) (ref : Reference)
    (hr : ∀ other, other ∉ S ++ path → getPair? other remaining = getPair? other ds)
    (hp : ∀ c ∈ path, Relation.TransGen (ds.graph b).Needs c ref) :
    Attempt.Yields (Keeps ds b S) (lookup (some remaining) (S ++ path) site ref)
      (ds.direct b (S ++ path) site ref) := by
  induction remaining using Definitions.induction_without generalizing path site ref with
  | step remaining ih =>
    intro b' hk
    cases hb' : b'.get? ref with
    | some a =>
      rw [lookup_bound hb', (hk.resolves ref a hb').direct path site hp]
      exact ⟨b', rfl, hk⟩
    | none =>
      have hb : b.get? ref = none := by
        cases hb : b.get? ref with
        | none => rfl
        | some a => rw [hk.bound ref a hb] at hb'; cases hb'
      cases he : (S ++ path).enter ref with
      | error e =>
        rw [lookup_entered hb' he, direct_entered hb he]
        exact ⟨b', rfl, hk⟩
      | ok entered =>
        obtain ⟨hfree, rfl⟩ := Chain.enter_ok he
        cases hd : getPair? ref ds with
        | none =>
          rw [lookup_undefined hb' he ((hr ref hfree).trans hd), direct_undefined hb he hd]
          exact ⟨b', rfl, hk⟩
        | some d =>
          have hdirect : ds.direct b (S ++ path) site ref =
              d.outcome fun site ref' => ds.direct b (S ++ path ++ [ref]) site ref' :=
            direct_defined hb he hd
          have hd' : getPair? ref remaining = some d := (hr ref hfree).trans hd
          have hresolve : Attempt.Yields (Keeps ds b S)
              (d.resolve fun site ref' =>
                lookup (some (remaining.without ref)) (S ++ path ++ [ref]) site ref')
              (d.outcome fun site ref' => ds.direct b (S ++ path ++ [ref]) site ref') := by
            refine d.resolve_yields fun need hneed site => ?_
            rw [List.append_assoc]
            refine ih ref d hd' (path ++ [ref]) site need (fun other ho => ?_)
              (transGen_snoc hp (needs_graph_iff.2 ⟨hb, d, hd, hneed⟩))
            rw [← List.append_assoc, List.mem_append, List.mem_singleton, not_or] at ho
            rw [getPair?_without ho.2, hr other ho.1]
          obtain ⟨b'', hrun, hk''⟩ := hresolve b' hk
          rw [lookup_defined hb' he hd']
          cases ho : ds.direct b (S ++ path) site ref with
          | error e =>
            rw [← hdirect, ho] at hrun
            exact ⟨b'', Attempt.run_bind_error _ hrun, hk''⟩
          | ok a =>
            rw [← hdirect, ho] at hrun
            have hvalue := (resolves_of_direct ho).mono fun c hc => List.mem_append_left _ hc
            exact ⟨b''.set ref a, Attempt.run_bind_ok _ hrun, hk''.set hb hvalue⟩

/-- A look-up keeps what is set, and comes to what is found directly from what was set at first. -/
theorem lookup_yields (ds : Definitions) (b : Bindings) (S : Chain) (site : Site)
    (ref : Reference) :
    Attempt.Yields (Keeps ds b S) (lookup (some ds) S site ref) (ds.direct b S site ref) := by
  have h := lookup_yields_under (b := b) (S := S) ds [] site ref (fun _ _ => rfl) fun c hc =>
    absurd hc List.not_mem_nil
  rwa [List.append_nil] at h

def directly (ds : Definitions) (b : Bindings) (S : Chain) (text : String) : Except Error Amount :=
  outcomeWith (fun site ref => ds.direct b S site ref) text

theorem evaluate_yields (ds : Definitions) (b : Bindings) (S : Chain) (text : String) :
    Attempt.Yields (Keeps ds b S) (evaluate (some ds) S text) (ds.directly b S text) :=
  (Definition.expression text).resolve_yields fun need _ site => lookup_yields ds b S site need

end Definitions

def Kept (definitions : Option Definitions) (b : Bindings) (S : Chain) (b' : Bindings) : Prop :=
  match definitions with
  | none => b' = b
  | some ds => ds.Keeps b S b'

theorem lookup_kept (definitions : Option Definitions) (b : Bindings) (S : Chain) (site : Site)
    (ref : Reference) : ∃ outcome,
      Attempt.Yields (Kept definitions b S) (lookup definitions S site ref) outcome := by
  cases definitions with
  | none =>
    cases hb : b.get? ref with
    | some a => exact ⟨.ok a, fun b' hk => ⟨b', lookup_bound (hk ▸ hb), hk⟩⟩
    | none => exact ⟨_, fun b' hk => ⟨b', lookup_none (hk ▸ hb), hk⟩⟩
  | some ds => exact ⟨_, ds.lookup_yields b S site ref⟩

theorem evaluate_kept (definitions : Option Definitions) (b : Bindings) (S : Chain)
    (text : String) : ∃ outcome,
      Attempt.Yields (Kept definitions b S) (evaluate definitions S text) outcome :=
  ⟨_, (Definition.expression text).resolve_yields fun need _ site =>
    (lookup_kept definitions b S site need).choose_spec⟩

namespace Context
variable {definitions : Option Definitions} {c c' : Context}

structure Follows (definitions : Option Definitions) (c c' : Context) : Prop where
  stack : c'.stack = c.stack
  bindings : Kept definitions c.bindings c.stack c'.bindings

theorem Follows.refl (definitions : Option Definitions) (c : Context) :
    c.Follows definitions c := by
  refine ⟨rfl, ?_⟩
  cases definitions with
  | none => rfl
  | some ds => exact .refl ds c.bindings c.stack

theorem Mirrors.follows {x : Contextual Amount} {y : Resolution Amount}
    {outcome : Except Error Amount} (h : Mirrors c.stack x y)
    (hy : Attempt.Yields (Kept definitions c.bindings c.stack) y outcome) :
    Attempt.Yields (c.Follows definitions) x outcome := by
  rintro ⟨b, stack⟩ ⟨hs, hb⟩
  simp only at hs hb
  subst hs
  obtain ⟨b', hrun, hk⟩ := hy b hb
  exact ⟨⟨b', c.stack⟩, by rw [h b, hrun], ⟨rfl, hk⟩⟩

theorem ask_follows (definitions : Option Definitions) (c : Context) (ask : Ask) :
    Attempt.Yields (c.Follows definitions) (ask.on definitions)
      ((ask.on definitions).run c).1 := by
  obtain ⟨outcome, h⟩ : ∃ outcome,
      Attempt.Yields (c.Follows definitions) (ask.on definitions) outcome := by
    cases ask with
    | evaluate text =>
      obtain ⟨outcome, h⟩ := evaluate_kept definitions c.bindings c.stack text
      exact ⟨outcome, (evaluate_mirrors definitions c.stack text).follows h⟩
    | lookup site ref =>
      obtain ⟨outcome, h⟩ := lookup_kept definitions c.bindings c.stack site ref
      exact ⟨outcome, (lookup_mirrors definitions c.stack site ref).follows h⟩
  obtain ⟨c', hrun, -⟩ := h c (.refl definitions c)
  rwa [hrun]

/-- A context answers each thing as if it were the first that it is asked, whatever was asked
before, and also whatever failed before: with the same value or the same error. -/
theorem answers_eq_map (definitions : Option Definitions) (c : Context) (asks : List Ask) :
    c.answers definitions asks = asks.map fun ask => ((ask.on definitions).run c).1 := by
  -- the answers of a context that follows are those of the one that it follows
  have hfollows : ∀ c', c.Follows definitions c' →
      c'.answers definitions asks = asks.map fun ask => ((ask.on definitions).run c).1 := by
    induction asks with
    | nil => exact fun _ _ => rfl
    | cons ask rest ih =>
      intro c' h
      obtain ⟨after, hrun, hafter⟩ := ask_follows definitions c ask c' h
      rw [answers, hrun, List.map_cons, ← ih after hafter]
  exact hfollows c (.refl definitions c)

end Context
end LedgerReport
