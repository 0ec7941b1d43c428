import LedgerReport.Proofs.Expression.Reading
import LedgerReport.Proofs.Expression.Lookups
/-!
What lazy evaluation over floating-point values comes to.

A value that it returns is the recursive one, and then no cycle can be reached. An error that tells
a cycle tells one of the graph that can be reached, unless a reference that was under resolution
before is needed again; and when nothing that can be reached is missing or malformed, there are no
other errors (`Definitions.direct_realOr`).
-/

set_option autoImplicit false

namespace LedgerReport
open Amount

/-- Whether an outcome is a floating-point value or not available, or else an error of a kind. -/
def RealOr (fault : Error → Prop) : Except Error Amount → Prop
  | .ok a => IsReal a
  | .error e => fault e

theorem RealOr.imp {fault fault' : Error → Prop} {outcome : Except Error Amount}
    (h : RealOr fault outcome) (hf : ∀ e, fault e → fault' e) : RealOr fault' outcome := by
  cases outcome with
  | ok a => exact h
  | error e => exact hf e h

theorem Node.outcome_realOr {find : Reference → Nat → Except Error Amount} {fault : Error → Prop}
    (node : Node) (h : ∀ ref ∈ node.occurrences, ∀ position, RealOr fault (find ref position)) :
    RealOr fault (node.outcome find) := by
  induction node with
  | literal x => exact isReal_ofReal (some x)
  | variableAt v position => exact h _ (by simp [occurrences]) position
  | orderAt n position => exact h _ (by simp [occurrences]) position
  | signed sign operand ih =>
    have hx := ih h
    rw [outcome]
    cases ho : operand.outcome find with
    | error e => rw [ho] at hx; exact hx
    | ok a =>
      rw [ho] at hx
      have ha : a = ofReal (real? a) := IsReal.eq_ofReal hx
      simp only [Except.map]
      rw [ha, Sign.map_apply_ofReal]
      exact isReal_ofReal _
  | binary operator left right hl hr =>
    have hx := hl fun ref hm => h ref (List.mem_append_left _ hm)
    have hy := hr fun ref hm => h ref (List.mem_append_right _ hm)
    rw [outcome]
    cases hol : left.outcome find with
    | error e => rw [hol] at hx; exact hx
    | ok a =>
      cases hor : right.outcome find with
      | error e => rw [hor] at hy; exact hy
      | ok c =>
        rw [hol] at hx
        rw [hor] at hy
        have ha : a = ofReal (real? a) := IsReal.eq_ofReal hx
        have hc : c = ofReal (real? c) := IsReal.eq_ofReal hy
        simp only [bind, Except.bind]
        rw [ha, hc, Operator.combine_ofReal]
        exact isReal_ofReal _

theorem Node.not_isCircular_of_read {text : String} {e : Error} (h : read text = .error e) :
    ¬ e.IsCircular := by
  rintro ⟨chain, rfl⟩
  obtain ⟨_, _, he⟩ | ⟨_, he⟩ := read_error h <;> cases he

/-- Whether all values that are set are floating-point values or not available. -/
def Bindings.IsReal (b : Bindings) : Prop := ∀ ref a, b.get? ref = some a → Amount.IsReal a

namespace Definition

/-- Whether a definition is an expression, a floating-point value or not available. -/
def IsReal : Definition → Prop
  | .value a => Amount.IsReal a
  | .expression _ => True
  | .refused _ => False

def IsReadable : Definition → Prop
  | .expression text => ∃ node, Node.read text = .ok node
  | _ => True

theorem outcome_realOr {find : Site → Reference → Except Error Amount} {fault : Error → Prop}
    (d : Definition) (hd : d.IsReal)
    (hf : ¬ d.IsReadable → ∀ e : Error, ¬ e.IsCircular → fault e)
    (h : ∀ need ∈ d.needs, ∀ site, RealOr fault (find site need)) :
    RealOr fault (d.outcome find) := by
  cases d with
  | value a => exact hd
  | refused e => exact hd.elim
  | expression text =>
    cases hn : Node.read text with
    | error e =>
      simp only [outcome, outcomeWith, hn]
      exact hf (by simp [IsReadable, hn]) e (Node.not_isCircular_of_read hn)
    | ok node =>
      simp only [needs, outcome, outcomeWith, hn] at h ⊢
      exact node.outcome_realOr fun need hm position => h need hm _

end Definition

namespace Definitions
variable {ds : Definitions} {b : Bindings} {S : Chain}

/-- Whether all definitions are expressions, floating-point values or not available. -/
def IsReal (ds : Definitions) : Prop := ∀ ref d, getPair? ref ds = some d → d.IsReal

def Provides (ds : Definitions) (b : Bindings) (ref : Reference) : Prop :=
  (∃ a, b.get? ref = some a) ∨ ∃ d, getPair? ref ds = some d ∧ d.IsReadable

/-- Whether a reference on a stack is needed without having a value, where some references can be
reached. -/
def Reenters (b : Bindings) (S : Chain) (reached : Reference → Prop) : Prop :=
  ∃ ref ∈ S, reached ref ∧ b.get? ref = none

/-- Whether a chain tells that a reference on a stack is needed again: it is what is on the stack
from that reference on, and then a path by which it is reached, which goes on from a given one. -/
def TellsReentry (ds : Definitions) (b : Bindings) (S path : Chain) (reached : Reference → Prop)
    (chain : List String) : Prop :=
  ∃ ref ∈ S, b.get? ref = none ∧ ∃ rest, (ds.graph b).LeadsTo (path ++ rest) ref ∧
    (∀ x ∈ rest ++ [ref], reached x) ∧
    chain = ((S ++ (path ++ rest)).cycle ref).map Reference.text

def TellsCycle (ds : Definitions) (b : Bindings) (reached : Reference → Prop)
    (chain : List String) : Prop :=
  ∃ cycle, chain = cycle.map Reference.text ∧ (ds.graph b).IsCycle cycle ∧
    ∀ ref ∈ cycle, reached ref

/-- What an error tells at the end of a path, where some references can be reached. -/
structure Fault (ds : Definitions) (b : Bindings) (S path : Chain) (reached : Reference → Prop)
    (e : Error) : Prop where
  circular : ∀ chain, e = .circularDependency chain →
    ds.TellsReentry b S path reached chain ∨ ds.TellsCycle b reached chain
  complete : (∀ ref, reached ref → ds.Provides b ref) → e.IsCircular

variable {path : Chain} {reached reached' : Reference → Prop}

theorem TellsReentry.reenters {chain : List String} (h : ds.TellsReentry b S path reached chain) :
    Reenters b S reached := by
  obtain ⟨ref, hs, hb, rest, -, hreached, -⟩ := h
  exact ⟨ref, hs, hreached ref (by simp), hb⟩

theorem TellsCycle.mono {chain : List String} (h : ds.TellsCycle b reached chain)
    (hr : ∀ ref, reached ref → reached' ref) : ds.TellsCycle b reached' chain := by
  obtain ⟨cycle, hc, hcycle, hm⟩ := h
  exact ⟨cycle, hc, hcycle, fun ref hc => hr ref (hm ref hc)⟩

theorem Fault.imp {e : Error} (h : Fault ds b S path reached e)
    (hr : ∀ ref, reached ref → reached' ref) : Fault ds b S path reached' e := by
  refine ⟨fun chain he => ?_, fun hp => h.complete fun ref hm => hp ref (hr ref hm)⟩
  refine (h.circular chain he).imp ?_ fun hc => hc.mono hr
  rintro ⟨ref, hs, hb, rest, hl, hreached, hc⟩
  exact ⟨ref, hs, hb, rest, hl, fun x hx => hr x (hreached x hx), hc⟩

theorem Fault.of_snoc {e : Error} {ref : Reference} (h : Fault ds b S (path ++ [ref]) reached e)
    (href : reached ref) : Fault ds b S path reached e := by
  refine ⟨fun chain he => (h.circular chain he).imp_left ?_, h.complete⟩
  rintro ⟨other, hs, hb, rest, hl, hreached, hc⟩
  rw [List.append_assoc] at hl hc
  refine ⟨other, hs, hb, ref :: rest, hl, fun x hx => ?_, hc⟩
  rcases List.mem_cons.1 hx with rfl | hx
  · exact href
  · exact hreached x hx

theorem direct_realOr (hb : b.IsReal) (hds : ds.IsReal) (path : Chain) (site : Site)
    (ref : Reference) (hl : (ds.graph b).LeadsTo path ref) :
    RealOr (Fault ds b S path (Relation.ReflTransGen (ds.graph b).Needs ref))
      (ds.direct b (S ++ path) site ref) := by
  generalize hchain : S ++ path = chain
  induction chain, site, ref using direct.induct ds b generalizing path with
  | case1 chain site ref a h =>
    rw [direct_bound h]
    exact hb ref a h
  | case2 chain site ref h e he =>
    rw [direct_entered h he]
    subst hchain
    obtain ⟨hm, rfl⟩ := Chain.enter_error he
    refine ⟨fun chain hc => ?_, fun _ => ⟨_, rfl⟩⟩
    cases hc
    by_cases hs : ref ∈ S
    · refine .inl ⟨ref, hs, h, [], by rwa [List.append_nil], fun x hx => ?_, ?_⟩
      · exact List.mem_singleton.1 hx ▸ .refl
      · rw [List.append_nil]
    · have hpath : ref ∈ path := (List.mem_append.1 hm).resolve_left hs
      rw [Chain.cycle_append path hs]
      have hcycle := hl.isCycle hpath
      exact .inr ⟨_, rfl, hcycle, fun x hx => hcycle.reaches (by simp [Chain.cycle]) hx⟩
  | case3 chain site ref h entered he hd =>
    rw [direct_undefined h he hd]
    refine ⟨fun chain hc => (by cases hc), fun hp => ?_⟩
    obtain ⟨a, ha⟩ | ⟨d, hd', -⟩ := hp ref .refl
    · rw [h] at ha; cases ha
    · rw [hd] at hd'; cases hd'
  | case4 chain site ref h entered he d hd ih =>
    rw [direct_defined h he hd]
    obtain ⟨hfree, rfl⟩ := Chain.enter_ok he
    subst hchain
    refine d.outcome_realOr (hds ref d hd) (fun hn e he => ?_) fun need hm site' => ?_
    · refine ⟨fun chain hc => absurd ⟨chain, hc⟩ he, fun hp => ?_⟩
      obtain ⟨a, ha⟩ | ⟨d', hd', hr⟩ := hp ref .refl
      · rw [h] at ha; cases ha
      · cases hd.symm.trans hd'
        exact absurd hr hn
    · have hedge : (ds.graph b).Needs ref need := needs_graph_iff.2 ⟨h, d, hd, hm⟩
      have hl' := hl.snoc (fun hm => hfree (List.mem_append_right S hm)) hedge
      exact (ih site' need (path ++ [ref]) hl' (by simp)).imp fun e he =>
        (he.imp fun x hx => .head hedge hx).of_snoc .refl

/-- Whether the evaluation of an expression can come to a reference, through such as have no
value. -/
def Reaches (ds : Definitions) (b : Bindings) (text : String) (ref : Reference) : Prop :=
  ∃ need ∈ (Definition.expression text).needs,
    Relation.ReflTransGen (ds.graph b).Needs need ref

/-- Whether the evaluation of an expression can come to a reference that needs itself. -/
def ReachesCycle (ds : Definitions) (b : Bindings) (text : String) : Prop :=
  ∃ ref, ds.Reaches b text ref ∧ Relation.TransGen (ds.graph b).Needs ref ref

variable {text : String}

theorem directly_ok (hb : b.IsReal) (hds : ds.IsReal) {a : Amount}
    (h : ds.directly b S text = .ok a) :
    ∃ node σ, Node.read text = .ok node ∧
      (∀ need ∈ node.occurrences, Resolves (ds.besides S) b need (ofReal (σ need))) ∧
      a = ofReal (node.meaning σ) := by
  unfold directly outcomeWith at h
  cases hn : Node.read text with
  | error e => rw [hn] at h; cases h
  | ok node =>
    simp only [hn] at h
    obtain ⟨τ, hτ⟩ := Resolves.exists_assignment (ds.besides S) b
    obtain ⟨hfound, ho⟩ := node.outcome_assigned
      (fun ref _ position x hx => hτ ref x (resolves_of_direct hx)) h
    have hreal : ∀ need ∈ node.occurrences, τ need = ofReal (real? (τ need)) := by
      intro need hm
      obtain ⟨position, hx⟩ := hfound need hm
      have hr := direct_realOr (S := S) hb hds [] ⟨some text, some position⟩ need (.nil _ need)
      rw [List.append_nil, hx] at hr
      exact IsReal.eq_ofReal hr
    refine ⟨node, fun need => real? (τ need), rfl, fun need hm => ?_, ?_⟩
    · obtain ⟨position, hx⟩ := hfound need hm
      rw [← hreal need hm]
      exact resolves_of_direct hx
    · rw [node.outcome_eq_meaning fun need hm _ => congrArg Except.ok (hreal need hm)] at ho
      exact Except.ok.inj ho.symm

theorem Reaches.resolves {ref : Reference} (h : ds.Reaches b text ref)
    (hr : ∀ need ∈ (Definition.expression text).needs, ∃ a, Resolves (ds.besides S) b need a) :
    ∃ a, Resolves (ds.besides S) b ref a := by
  obtain ⟨need, hm, hpath⟩ := h
  induction hpath with
  | refl => exact hr need hm
  | tail _ hn ih =>
    obtain ⟨a, ha⟩ := ih
    exact ha.of_needs hn

/-- An expression that has a value comes to no reference that needs itself, and to none on the
stack. -/
theorem not_reaches_of_directly_ok (hb : b.IsReal) (hds : ds.IsReal) {a : Amount}
    (h : ds.directly b S text = .ok a) :
    ¬ ds.ReachesCycle b text ∧ ¬ Reenters b S (ds.Reaches b text) := by
  obtain ⟨node, σ, hn, hσ, -⟩ := directly_ok hb hds h
  have hneeds : ∀ need ∈ (Definition.expression text).needs,
      ∃ a, Resolves (ds.besides S) b need a := by
    intro need hm
    simp only [Definition.needs, hn] at hm
    exact ⟨_, hσ need hm⟩
  constructor
  · rintro ⟨ref, hreach, hcycle⟩
    obtain ⟨x, hx⟩ := hreach.resolves hneeds
    exact hx.settled.not_transGen hcycle
  · rintro ⟨ref, hs, hreach, hnone⟩
    obtain ⟨x, hx⟩ := hreach.resolves hneeds
    cases hx with
    | bound hb' => rw [hnone] at hb'; cases hb'
    | defined _ hd =>
      rw [getPair?_besides, if_pos hs] at hd
      cases hd

theorem directly_realOr (hb : b.IsReal) (hds : ds.IsReal) {node : Node}
    (hn : Node.read text = .ok node) :
    RealOr (Fault ds b S [] (ds.Reaches b text)) (ds.directly b S text) := by
  simp only [directly, outcomeWith, hn]
  refine node.outcome_realOr fun need hm position => ?_
  have h := direct_realOr (S := S) hb hds [] ⟨some text, some position⟩ need (.nil _ need)
  rw [List.append_nil] at h
  exact h.imp fun e he => he.imp fun ref hr =>
    ⟨need, by simpa only [Definition.needs, hn] using hm, hr⟩

theorem Reaches.readable {ref : Reference} (h : ds.Reaches b text ref) :
    ∃ node, Node.read text = .ok node := by
  obtain ⟨need, hm, -⟩ := h
  cases hn : Node.read text with
  | ok node => exact ⟨node, rfl⟩
  | error e => simp [Definition.needs, hn] at hm

/-- A chain that is told is a cycle that the evaluation can come to, or is closed by the stack. -/
theorem directly_circular (hb : b.IsReal) (hds : ds.IsReal) {chain : List String}
    (h : ds.directly b S text = .error (.circularDependency chain)) :
    ds.TellsReentry b S [] (ds.Reaches b text) chain ∨
      ds.TellsCycle b (ds.Reaches b text) chain := by
  cases hn : Node.read text with
  | error e =>
    have he : e = .circularDependency chain := by simpa [directly, outcomeWith, hn] using h
    exact absurd ⟨chain, he⟩ (Node.not_isCircular_of_read hn)
  | ok node =>
    have hfault := directly_realOr (S := S) hb hds hn
    rw [h] at hfault
    exact hfault.circular chain rfl

theorem directly_circular_iff (hb : b.IsReal) (hds : ds.IsReal)
    (hp : ∀ ref, ds.Reaches b text ref → ds.Provides b ref) :
    (∃ chain, ds.directly b S text = .error (.circularDependency chain)) ↔
      Reenters b S (ds.Reaches b text) ∨ ds.ReachesCycle b text := by
  constructor
  · rintro ⟨chain, h⟩
    refine (directly_circular hb hds h).imp (·.reenters) ?_
    rintro ⟨cycle, -, hcycle, hreach⟩
    obtain ⟨ref, hm, hreturn⟩ := hcycle.transGen
    exact ⟨ref, hreach ref hm, hreturn⟩
  · intro h
    obtain ⟨ref, hreach⟩ : ∃ ref, ds.Reaches b text ref := by
      obtain ⟨ref, -, hreach, -⟩ | ⟨ref, hreach, -⟩ := h <;> exact ⟨ref, hreach⟩
    obtain ⟨node, hn⟩ := hreach.readable
    have hfault := directly_realOr (S := S) hb hds hn
    cases ho : ds.directly b S text with
    | ok a =>
      obtain ⟨hcycle, hstack⟩ := not_reaches_of_directly_ok hb hds ho
      exact (h.elim hstack hcycle).elim
    | error e =>
      rw [ho] at hfault
      obtain ⟨chain, rfl⟩ := hfault.complete hp
      exact ⟨chain, rfl⟩

end Definitions

namespace Context
open Definitions

/-- What an evaluation comes to, and what it leaves of a context. A reference that is on the stack
from before can be needed again, which is a cycle, too: the chain that is told then begins with a
part of the stack. Where nothing is under resolution, this is not possible. -/
structure Evaluates (ds : Definitions) (c : Context) (text : String)
    (outcome : Except Error Amount) (after : Context) : Prop where
  stack : after.stack = c.stack
  bound : ∀ ref a, c.bindings.get? ref = some a → after.bindings.get? ref = some a
  added : ∀ ref a, after.bindings.get? ref = some a → c.bindings.get? ref = none →
    Resolves ds c.bindings ref a
  value : ∀ a, outcome = .ok a → ∃ node σ, Node.read text = .ok node ∧
    (∀ need ∈ node.occurrences, Resolves ds c.bindings need (ofReal (σ need))) ∧
    a = ofReal (node.meaning σ)
  acyclic : ∀ a, outcome = .ok a → ¬ ds.ReachesCycle c.bindings text
  circular : ∀ chain, outcome = .error (.circularDependency chain) →
    ds.TellsReentry c.bindings c.stack [] (ds.Reaches c.bindings text) chain ∨
      ds.TellsCycle c.bindings (ds.Reaches c.bindings text) chain
  complete : (∀ ref, ds.Reaches c.bindings text ref → ds.Provides c.bindings ref) →
    ((∃ chain, outcome = .error (.circularDependency chain)) ↔
      Reenters c.bindings c.stack (ds.Reaches c.bindings text) ∨
      ds.ReachesCycle c.bindings text)

/-- The outcome of an evaluation over floating-point values is the recursive meaning of its
expression, or tells why there is none. -/
theorem evaluate_evaluates (ds : Definitions) (c : Context) (text : String)
    (hb : c.bindings.IsReal) (hds : ds.IsReal) :
    Evaluates ds c text ((evaluate (some ds) text).run c).1
      ((evaluate (some ds) text).run c).2 := by
  obtain ⟨b', hrun, hk⟩ := evaluate_yields ds c.bindings c.stack text c.bindings (.refl ..)
  rw [evaluate_mirrors (some ds) c.stack text c.bindings, hrun]
  exact {
    stack := rfl
    bound := hk.bound
    added := fun ref a ha _ => (hk.resolves ref a ha).besides
    value := fun a ha => by
      obtain ⟨node, σ, hn, hσ, hvalue⟩ := directly_ok hb hds ha
      exact ⟨node, σ, hn, fun need hm => (hσ need hm).besides, hvalue⟩
    acyclic := fun a ha => (not_reaches_of_directly_ok hb hds ha).1
    circular := fun chain => directly_circular hb hds
    complete := directly_circular_iff hb hds }

def rates : Bindings := ⟨[("rate", some (.real 0.5))], []⟩

def entangled : Definitions :=
  [(.order 10, .expression "@20 + rate"), (.order 20, .expression "@10 * 2"),
    (.name "spread", .value (some (.real 0.5)))]

theorem evaluate_evaluates_entangled :
    rates.IsReal ∧ entangled.IsReal ∧ Evaluates entangled ⟨rates, []⟩ "spread - @10"
      ((evaluate (some entangled) "spread - @10").run ⟨rates, []⟩).1
      ((evaluate (some entangled) "spread - @10").run ⟨rates, []⟩).2 := by
  have hb : rates.IsReal := by
    rintro (v | n) a h
    · obtain ⟨p, hp, rfl⟩ := Option.map_eq_some_iff.1 h
      rw [List.mem_singleton.1 (List.mem_of_find?_eq_some hp)]
      exact isReal_ofReal (some 0.5)
    · cases h
  have hds : entangled.IsReal := by
    intro ref d h
    obtain ⟨p, hp, rfl⟩ := Option.map_eq_some_iff.1 h
    have hm := List.mem_of_find?_eq_some hp
    simp only [entangled, List.mem_cons, List.not_mem_nil, or_false] at hm
    rcases hm with rfl | rfl | rfl
    · trivial
    · trivial
    · exact isReal_ofReal (some 0.5)
  exact ⟨hb, hds, evaluate_evaluates entangled ⟨rates, []⟩ "spread - @10" hb hds⟩

end Context
end LedgerReport
