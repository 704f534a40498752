import LinuxAbi.Lib.Run
import LinuxAbi.Lib.Tally
import LinuxAbi.Lib.Word

/-!
# Rebinding a packet socket

`prepare_bind` and `publish_bind` of `crates/packet/src/socket.rs`, and any number of binders
that share a socket. A plan is a copy of a binding and of what is to replace it; it may be
published late, twice, or never. The generation tells a binding from an equal one that was
there before, so a plan fits only as long as nothing else has been bound.
-/

namespace LinuxAbi.Packet

open Lib (NonZeroU64)

/-- `none` is `Any`, the wildcard. -/
abbrev InterfaceIndex := Option { index : Nat // 0 < index ∧ index < 2 ^ 31 }

inductive ProtocolSelector
  | disabled
  | all
  | exact (etherType : { protocol : BitVec 16 // protocol ≠ 0 ∧ protocol ≠ 3 })
deriving DecidableEq

inductive PacketSocketType
  | raw
  | datagram

inductive PacketError
  | staleBindPlan
  | bindGenerationExhausted

structure PacketBinding where
  interface : InterfaceIndex
  protocol : ProtocolSelector
  generation : NonZeroU64
deriving DecidableEq

structure PacketBindRequest where
  interface : InterfaceIndex
  protocol : ProtocolSelector

structure BindPlan where
  expected : PacketBinding
  replacement : PacketBinding

def BindPlan.isNoop (plan : BindPlan) : Bool :=
  plan.expected.interface = plan.replacement.interface &&
    plan.expected.protocol = plan.replacement.protocol

inductive BindPublication
  | unchanged
  | rebound

structure PacketSocketState where
  socketType : PacketSocketType
  binding : PacketBinding
  ignoreOutgoing : Bool

namespace PacketSocketState

def new (socketType : PacketSocketType) (protocol : ProtocolSelector) : PacketSocketState where
  socketType := socketType
  binding := ⟨none, protocol, .one⟩
  ignoreOutgoing := false

def prepareBind (s : PacketSocketState) (request : PacketBindRequest) :
    Except PacketError BindPlan :=
  let protocol := match request.protocol with
    | .disabled => s.binding.protocol
    | selected => selected
  if request.interface ≠ s.binding.interface ∨ protocol ≠ s.binding.protocol then
    match s.binding.generation.checkedSucc with
    | none => .error .bindGenerationExhausted
    | some generation => .ok ⟨s.binding, ⟨request.interface, protocol, generation⟩⟩
  else .ok ⟨s.binding, ⟨request.interface, protocol, s.binding.generation⟩⟩

def publishBind (s : PacketSocketState) (plan : BindPlan) :
    Except PacketError BindPublication × PacketSocketState :=
  if s.binding ≠ plan.expected then (.error .staleBindPlan, s)
  else
    (.ok (if plan.isNoop then .unchanged else .rebound), { s with binding := plan.replacement })

end PacketSocketState

/-! ## Any number of binders -/

/-- A plan, and how many rebindings had been published when it was made. -/
structure Prepared where
  plan : BindPlan
  after : Nat

/-- A socket, the plans that have been made for it, and those that rebound it, in order. -/
structure Binders where
  socket : PacketSocketState
  plans : List Prepared
  rebound : List BindPlan

inductive BinderCall
  | prepare (request : PacketBindRequest)
  | publish (plan : Nat)
  | setOption (ignoreOutgoing : Bool)

namespace Binders

def call (x : Binders) : BinderCall → Option PacketError × Binders
  | .prepare request =>
    match x.socket.prepareBind request with
    | .error error => (some error, x)
    | .ok plan => (none, { x with plans := x.plans ++ [⟨plan, x.rebound.length⟩] })
  | .publish k =>
    match x.plans[k]? with
    | none => (none, x)
    | some ⟨plan, _⟩ =>
      match x.socket.publishBind plan with
      | (.error error, socket) => (some error, { x with socket })
      | (.ok .unchanged, socket) => (none, { x with socket })
      | (.ok .rebound, socket) => (none, { x with socket, rebound := x.rebound ++ [plan] })
  | .setOption ignoreOutgoing => (none, { x with socket := { x.socket with ignoreOutgoing } })

/-- The bindings that have been live, from the first one on. -/
def bindings (start : PacketBinding) (rebound : List BindPlan) : List PacketBinding :=
  start :: rebound.map (·.replacement)

theorem bindings_concat (start : PacketBinding) (rebound : List BindPlan) (plan : BindPlan) :
    bindings start (rebound ++ [plan]) = bindings start rebound ++ [plan.replacement] := by
  simp [bindings]

theorem length_bindings (start : PacketBinding) (rebound : List BindPlan) :
    (bindings start rebound).length = rebound.length + 1 := by
  simp [bindings]

/-- Every plan was made from the binding after `after` rebindings, and all bindings before the
current one have smaller generations. -/
structure Ordered (start : PacketBinding) (x : Binders) : Prop where
  current : (bindings start x.rebound)[x.rebound.length]? = some x.socket.binding
  earlier : ∀ i b, i < x.rebound.length → (bindings start x.rebound)[i]? = some b →
    b.generation.val < x.socket.binding.generation.val
  linked : ∀ (i : Nat) (p : BindPlan), x.rebound[i]? = some p →
    (bindings start x.rebound)[i]? = some p.expected ∧
    p.expected.generation.val < p.replacement.generation.val
  plans : ∀ q ∈ x.plans, q.after ≤ x.rebound.length ∧
    (bindings start x.rebound)[q.after]? = some q.plan.expected ∧
    (q.plan.isNoop = true ∧ q.plan.replacement = q.plan.expected ∨ q.plan.isNoop = false ∧
      q.plan.expected.generation.val < q.plan.replacement.generation.val)

variable {start : PacketBinding} {x : Binders} {q : Prepared}

/-- A plan fits as long as nothing was bound since it was made. -/
theorem Ordered.expected_iff (h : x.Ordered start) (hq : q ∈ x.plans) :
    x.socket.binding = q.plan.expected ↔ q.after = x.rebound.length := by
  obtain ⟨hle, hafter, -⟩ := h.plans q hq
  constructor
  · intro heq
    by_contra hne
    have hlt := h.earlier q.after _ (by omega) hafter
    rw [heq] at hlt
    omega
  · intro heq
    rw [heq, h.current] at hafter
    exact Option.some.inj hafter

theorem Ordered.prepare (h : x.Ordered start) (hplan : x.socket.prepareBind request = .ok plan) :
    Ordered start { x with plans := x.plans ++ [⟨plan, x.rebound.length⟩] } := by
  refine ⟨h.current, h.earlier, h.linked, Lib.forall_mem_concat h.plans ?_⟩
  unfold PacketSocketState.prepareBind at hplan
  extract_lets protocol at hplan
  split at hplan
  · next hchanged =>
    split at hplan
    · cases hplan
    next generation hnext =>
    cases hplan
    have hval := NonZeroU64.val_checkedSucc hnext
    refine ⟨Nat.le_refl _, h.current, .inr ⟨?_, by simp [hval]⟩⟩
    simp only [BindPlan.isNoop, Bool.and_eq_false_iff, decide_eq_false_iff_not]
    exact hchanged.imp Ne.symm Ne.symm
  next hsame =>
  cases hplan
  simp only [not_or, not_not] at hsame
  refine ⟨Nat.le_refl _, h.current, .inl ?_⟩
  simp [BindPlan.isNoop, hsame]

/-- A binding that is replaced joins the earlier ones. -/
theorem Ordered.rebind (h : x.Ordered start) (hq : q ∈ x.plans)
    (hfits : x.socket.binding = q.plan.expected) (hchanged : q.plan.isNoop = false) :
    Ordered start { x with
      socket := { x.socket with binding := q.plan.replacement }
      rebound := x.rebound ++ [q.plan] } := by
  have hlt : x.socket.binding.generation.val < q.plan.replacement.generation.val := by
    rcases (h.plans q hq).2.2 with ⟨hno, -⟩ | ⟨-, hlt⟩
    · rw [hchanged] at hno
      cases hno
    · rwa [hfits]
  have hold : ∀ {i : Nat} {b}, (bindings start x.rebound)[i]? = some b →
      (bindings start (x.rebound ++ [q.plan]))[i]? = some b := by
    intro i b hb
    rw [bindings_concat, List.getElem?_append_left (Lib.lt_of_getElem? hb)]
    exact hb
  refine ⟨?_, ?_, ?_, ?_⟩
  · simp [bindings_concat, length_bindings]
  · intro i b hi hb
    simp only [List.length_append, List.length_singleton] at hi
    rw [bindings_concat, List.getElem?_append_left (by rw [length_bindings]; omega)] at hb
    by_cases hlast : i = x.rebound.length
    · rw [hlast, h.current] at hb
      rwa [← Option.some.inj hb]
    · exact Nat.lt_trans (h.earlier i b (by omega) hb) hlt
  · intro i p hp
    rcases Lib.getElem?_concat_cases hp with hp | ⟨rfl, rfl⟩
    · exact ⟨hold (h.linked i p hp).1, (h.linked i p hp).2⟩
    · exact ⟨hold (hfits ▸ h.current), hfits ▸ hlt⟩
  · intro p hp
    obtain ⟨hle, hafter, hplan⟩ := h.plans p hp
    refine ⟨?_, hold hafter, hplan⟩
    simp only [List.length_append]
    omega

theorem Ordered.call (h : x.Ordered start) (op : BinderCall) : (x.call op).2.Ordered start := by
  cases op with
  | setOption => exact ⟨h.current, h.earlier, h.linked, h.plans⟩
  | prepare request =>
    simp only [Binders.call]
    split
    · exact h
    · next plan hplan => exact h.prepare hplan
  | publish k =>
    simp only [Binders.call]
    split
    · exact h
    next plan after hk =>
    have hq := List.mem_of_getElem? hk
    unfold PacketSocketState.publishBind
    by_cases hfits : x.socket.binding = plan.expected
    · rw [if_neg (not_not.mpr hfits)]
      rcases (h.plans _ hq).2.2 with ⟨hno, hsame⟩ | ⟨hchanged, -⟩
      · rw [if_pos hno, show plan.replacement = _ from hsame, ← hfits]
        exact h
      · simp only [hchanged]
        exact h.rebind hq hfits hchanged
    · rw [if_pos hfits]
      exact h

/-- Whatever binders do in whatever order: a plan is published exactly when no rebinding was
published since it was made, and is stale otherwise; the plans that rebound the socket were
each computed from the binding their predecessor left, and raise the generation. -/
theorem run_rebinding (socketType : PacketSocketType) (protocol : ProtocolSelector)
    (calls : List BinderCall) :
    let socket := PacketSocketState.new socketType protocol
    let x := Lib.run call ⟨socket, [], []⟩ calls
    (∀ q ∈ x.plans, x.socket.publishBind q.plan = if q.after = x.rebound.length then
        (.ok (if q.plan.isNoop then .unchanged else .rebound),
          { x.socket with binding := q.plan.replacement })
      else (.error .staleBindPlan, x.socket)) ∧
    (bindings socket.binding x.rebound)[x.rebound.length]? = some x.socket.binding ∧
    ∀ (i : Nat) (p : BindPlan), x.rebound[i]? = some p →
      (bindings socket.binding x.rebound)[i]? = some p.expected ∧
      p.expected.generation.val < p.replacement.generation.val := by
  intro socket x
  have h : x.Ordered socket.binding := by
    refine Lib.run_preserves (I := Ordered socket.binding) (fun _ op h => h.call op) ?_ calls
    exact ⟨rfl, nofun, nofun, nofun⟩
  refine ⟨fun q hq => ?_, h.current, h.linked⟩
  have hiff := h.expected_iff hq
  unfold PacketSocketState.publishBind
  by_cases hafter : q.after = x.rebound.length
  · rw [if_pos hafter, if_neg (not_not.mpr (hiff.mpr hafter))]
  · rw [if_neg hafter, if_pos fun heq => hafter (hiff.mp heq)]

/-- A socket that is bound to an interface and back, with a plan left from the beginning. -/
def thereAndBack : Binders :=
  Lib.run call ⟨.new .raw .all, [], []⟩
    [.prepare ⟨some ⟨1, by decide⟩, .disabled⟩, .prepare ⟨some ⟨2, by decide⟩, .disabled⟩,
     .publish 0, .prepare ⟨none, .disabled⟩, .publish 2]

/-- The plan that is left was made at the same address and is refused for its generation. -/
theorem run_rebinding_there_and_back :
    thereAndBack.socket.binding = ⟨none, .all, ⟨3, by decide, by decide⟩⟩ ∧
      ∀ q ∈ thereAndBack.plans,
        thereAndBack.socket.publishBind q.plan = (.error .staleBindPlan, thereAndBack.socket) := by
  refine ⟨by decide, fun q hq => ?_⟩
  refine ((run_rebinding .raw .all _).1 q hq).trans (if_neg ?_)
  revert q
  decide

end Binders
end LinuxAbi.Packet
