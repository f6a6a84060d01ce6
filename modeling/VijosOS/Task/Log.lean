import VijosOS.Task.Suspension

/-!
# The log of a run

Calls, datagrams and deliveries are only added; a call keeps the filter it was made with,
and only `recv_udp` makes one.
-/

namespace VijosOS

open Library

/-- The bytes of the datagram. -/
def UdpDispatch.packet (d : UdpDispatch) : Mem := writeBytes (fun _ => 0) 0 d.payload

theorem RecvCall.Holds.agree {c : RecvCall} {d : UdpDispatch} (h : c.Holds d) :
    c.outLen ≤ d.payload.length ∧ AgreeUpTo c.outLen c.buff d.packet := by
  have hlen : c.outLen ≤ d.payload.length := by
    rw [h.outLen, copyLen_eq_min]
    exact Nat.min_le_left _ _
  have hpacket := bytesAt_writeBytes_inside (fun _ => 0) 0 (a := 0) (n := c.outLen) d.payload (by omega)
  exact ⟨hlen, .of_bytesAt (h.bytes.trans hpacket.symm)⟩

namespace UdpLog

variable {l l' l'' : UdpLog}

def filters (l : UdpLog) : List UdpFilter := l.calls.map RecvCall.filter

/-- Datagram `d` was delivered to call number `n`. -/
def Delivered (l : UdpLog) (n : Nat) (d : UdpDispatch) : Prop :=
  ∃ i, (i, n) ∈ l.deliveries ∧ l.datagrams[i]? = some d

/-- `new` lists the filters of the calls made from `l` to `l'`. -/
structure Extends (l l' : UdpLog) (new : List UdpFilter) : Prop where
  filters : l'.filters = l.filters ++ new
  datagrams : l.datagrams <+: l'.datagrams
  deliveries : l.deliveries <+: l'.deliveries

theorem Extends.refl (l : UdpLog) : Extends l l [] :=
  ⟨(List.append_nil _).symm, List.prefix_rfl, List.prefix_rfl⟩

theorem Extends.trans {new new' : List UdpFilter} (h : Extends l l' new) (h' : Extends l' l'' new') :
    Extends l l'' (new ++ new') := by
  refine ⟨?_, h.datagrams.trans h'.datagrams, h.deliveries.trans h'.deliveries⟩
  rw [h'.filters, h.filters, List.append_assoc]

theorem map_filter_modify (calls : List RecvCall) (n : Nat) {f : RecvCall → RecvCall}
    (h : ∀ c, (f c).filter = c.filter) : (calls.modify n f).map RecvCall.filter = calls.map RecvCall.filter := by
  apply List.ext_getElem
  · simp
  · intro i hi hi'
    rw [List.getElem_map, List.getElem_map, List.getElem_modify]
    split_ifs
    · exact h _
    · rfl

theorem extends_call (l : UdpLog) (c : RecvCall) : Extends l (l.call c) [c.filter] :=
  ⟨List.map_append, List.prefix_rfl, List.prefix_rfl⟩

theorem extends_receive (l : UdpLog) (d : UdpDispatch) : Extends l (l.receive d) [] :=
  ⟨(List.append_nil _).symm, List.prefix_append _ _, List.prefix_rfl⟩

theorem extends_deliver (l : UdpLog) (n len i : Nat) (d : UdpDispatch) :
    Extends l (l.deliver n len i d) [] :=
  ⟨(map_filter_modify l.calls n (f := fun c => c.deliver len d) fun _ => rfl).trans
    (List.append_nil _).symm, List.prefix_rfl, List.prefix_append _ _⟩

theorem extends_ret (l : UdpLog) (n : Nat) : Extends l (l.ret n) [] :=
  ⟨(map_filter_modify l.calls n (f := fun c => { c with ret := some c.outLen }) fun _ => rfl).trans
    (List.append_nil _).symm, List.prefix_rfl, List.prefix_rfl⟩

theorem Extends.delivered {new : List UdpFilter} (h : Extends l l' new) {n : Nat} {d : UdpDispatch}
    (hd : l.Delivered n d) : l'.Delivered n d := by
  obtain ⟨i, hmem, hget⟩ := hd
  obtain ⟨rest, hrest⟩ := h.datagrams
  refine ⟨i, h.deliveries.subset hmem, ?_⟩
  rw [← hrest, List.getElem?_append_left (List.getElem?_eq_some_iff.mp hget).1]
  exact hget

theorem Extends.filter {new : List UdpFilter} (h : Extends l l' new) {n : Nat} {f : UdpFilter}
    (hn : l.filters[n]? = some f) : l'.filters[n]? = some f := by
  rw [h.filters, List.getElem?_append_left (List.getElem?_eq_some_iff.mp hn).1]
  exact hn

theorem Extends.filter_new {f : UdpFilter} (h : Extends l l' [f]) : l'.filters[l.calls.length]? = some f := by
  have hlength : l.calls.length = l.filters.length := (List.length_map RecvCall.filter).symm
  rw [h.filters, hlength]
  exact List.getElem?_concat_length

theorem Ok.delivered_lt (h : l.Ok) {n : Nat} {d : UdpDispatch} (hd : l.Delivered n d) :
    n < l.calls.length := by
  obtain ⟨i, hmem, -⟩ := hd
  exact h.lt_of_delivered (not_not.mpr (List.mem_map_of_mem hmem))

/-- What a call with data in its variables was given. -/
theorem Ok.holds (h : l.Ok) {n : Nat} {c : RecvCall} (hc : l.calls[n]? = some c) (hlen : c.outLen ≠ 0) :
    ∃ d, l.Delivered n d ∧ c.Holds d := by
  have hdelivered : ¬ l.Undelivered n := fun hn => hlen (h.undelivered n c hc hn)
  obtain ⟨⟨i, m⟩, hmem, hm⟩ := List.mem_map.mp (not_not.mp hdelivered)
  obtain rfl : m = n := hm
  obtain ⟨d, c', hd, hc', hholds⟩ := h.delivered i m hmem
  obtain rfl : c = c' := Option.some.inj (hc.symm.trans hc')
  exact ⟨d, ⟨i, hmem, hd⟩, hholds⟩

/-- What is delivered to a call passes its filter. -/
theorem Ok.matched (h : l.Ok) {n : Nat} {d : UdpDispatch} (hd : l.Delivered n d) :
    ∃ f ∈ l.filters, taskMatchUdp f d = true := by
  obtain ⟨i, hmem, hget⟩ := hd
  obtain ⟨d', c, hget', hcall, hholds⟩ := h.delivered i n hmem
  obtain rfl : d = d' := Option.some.inj (hget.symm.trans hget')
  exact ⟨c.filter, List.mem_map_of_mem (List.mem_of_getElem? hcall), hholds.matched⟩

end UdpLog

namespace Sched

variable {s s' : Sched}

/-- The filter of the call that the step makes. -/
def Label.filters : Label → List UdpFilter
  | .recvUdp filter _ _ => [filter]
  | _ => []

theorem switchTo_extends (s : Sched) (t : Nat) : s.log.Extends (s.switchTo t).log [] := by
  obtain ⟨w, -, h⟩ | ⟨n, -, h⟩ | ⟨i, d, u, -, -, h⟩ | ⟨-, h⟩ := switchTo_cases s t
  all_goals rw [h]
  · exact .refl _
  · exact s.log.extends_ret n
  · exact s.log.extends_deliver _ _ i d
  · exact .refl _

theorem step_extends {l : Label} (h : s.step l = some s') : s.log.Extends s'.log l.filters := by
  cases step_effect h with
  | next _ p hidle =>
    have hnone : l.filters = [] := by
      cases l with
      | recvUdp filter len timeout => simp [step, hidle, idleStep] at h
      | tick | poll | idle | dispatch | wait | sleep | schedYield => rfl
    rw [hnone]
    exact .refl _
  | handOff e p t => exact switchTo_extends { s with idle := p } t
  | selected i t =>
    exact switchTo_extends (Sched.modify { s with idle := .pollTtyRecv } t _) t
  | recvUdp filter len timeout => exact s.log.extends_call _
  | delivered d t => exact (s.log.extends_receive d).trans (UdpLog.extends_deliver _ _ _ _ d)
  | undelivered d => exact s.log.extends_receive d
  | tick | exhausted | skipped | looked | passed | wait | sleep | schedYield => exact .refl _

end Sched

end VijosOS
