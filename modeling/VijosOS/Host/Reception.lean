import VijosOS.Host.Senders
import VijosOS.Net.Resolution
import VijosOS.Task.Log

/-!
# Reception

The IP task hands the driver one buffer and waits for the device; the frame it then gives to
`handle_frame` is the one the device has stored. Over a whole run every frame received is handled
once and in order, up to the last one, and the datagrams that tasks receive are those of the
frames handled.
-/

namespace VijosOS

open Library

namespace Sched

variable {s s' : Sched}

/-- The datagram that the step gives to `task_dispatch_udp`. -/
def Label.datagrams : Label → List UdpDispatch
  | .dispatch d => [d]
  | _ => []

theorem switchTo_datagrams (s : Sched) (t : Nat) : (s.switchTo t).log.datagrams = s.log.datagrams := by
  obtain ⟨w, -, h⟩ | ⟨n, -, h⟩ | ⟨i, d, u, -, -, h⟩ | ⟨-, h⟩ := switchTo_cases s t
  all_goals rw [h]
  all_goals rfl

theorem step_datagrams {l : Label} (h : s.step l = some s') :
    s'.log.datagrams = s.log.datagrams ++ l.datagrams := by
  cases step_effect h with
  | next _ p hidle =>
    have hnone : l.datagrams = [] := by
      cases l with
      | dispatch d => simp [step, hidle, idleStep] at h
      | tick | poll | idle | recvUdp | wait | sleep | schedYield => rfl
    rw [hnone]
    exact (List.append_nil _).symm
  | handOff e p t => exact (switchTo_datagrams { s with idle := p } t).trans (List.append_nil _).symm
  | selected i t =>
    exact (switchTo_datagrams (Sched.modify { s with idle := .pollTtyRecv } t _) t).trans (List.append_nil _).symm
  | delivered d t | undelivered d => rfl
  | recvUdp | tick | exhausted | skipped | looked | passed | wait | sleep | schedYield =>
    exact (List.append_nil _).symm

end Sched

namespace Host

variable {y y' : Host} {l : Label}

/-- The frame that the step receives. -/
def Label.frames : Label → List (List Byte)
  | .received frame => [frame]
  | _ => []

/-- The buffer as the device has left it. -/
def frame (y : Host) : Frame := ⟨y.nic.lastRecvLen, y.dmaBuff⟩

/-- The frame that the step gives to `handle_frame`, in the network state it finds. -/
def handles (y : Host) (l : Label) : List (NetState × Frame) :=
  match l, y.ip with
  | .ip, .recv => [(y.net, y.frame)]
  | _, _ => []

/-- The frame that the device has stored and the IP task has not handled yet. -/
def pending (y : Host) : List Frame := if y.ip = .recv ∧ y.nic.rx = none then [y.frame] else []

/-! ## Steps of the IP task, and the others -/

theorem call_datagrams {k : Sched.Label} (h : y.call k = some y') :
    y'.sched.log.datagrams = y.sched.log.datagrams ++ k.datagrams ∧ y'.ip = y.ip := by
  obtain ⟨s, hs, rfl⟩ := Option.map_eq_some_iff.mp h
  exact ⟨Sched.step_datagrams hs, rfl⟩

theorem transmit_datagrams {b : Buffer} {frame : List Byte} (h : y.transmit b frame = some y') :
    y'.sched.log.datagrams = y.sched.log.datagrams ∧ y'.ip = y.ip := by
  obtain ⟨hsched, hip, -⟩ := beginSendFrame_eq y b frame
  obtain ⟨hdatagrams, hip'⟩ := call_datagrams h
  rw [hsched] at hdatagrams
  exact ⟨hdatagrams.trans (List.append_nil _), hip'.trans hip⟩

theorem sendUdp_datagrams {sport dport : Port} {daddr : Ipv6Addr} {payload : List Byte}
    (h : y.sendUdp sport daddr dport payload = some y') :
    y'.sched.log.datagrams = y.sched.log.datagrams ∧ y'.ip = y.ip := by
  unfold sendUdp at h
  split at h
  · exact transmit_datagrams h
  · cases h
    exact ⟨rfl, rfl⟩

/-- A step that neither dispatches nor belongs to the IP task. -/
structure Aside (y y' : Host) : Prop where
  datagrams : y'.sched.log.datagrams = y.sched.log.datagrams
  ip : y'.ip = y.ip

theorem call_aside {k : Sched.Label} (h : y.call k = some y') (hk : k.datagrams = []) : Aside y y' := by
  obtain ⟨hdatagrams, hip⟩ := call_datagrams h
  rw [hk, List.append_nil] at hdatagrams
  exact ⟨hdatagrams, hip⟩

theorem sendUdp_aside {sport dport : Port} {daddr : Ipv6Addr} {payload : List Byte}
    (h : y.sendUdp sport daddr dport payload = some y') : Aside y y' := by
  obtain ⟨hdatagrams, hip⟩ := sendUdp_datagrams h
  exact ⟨hdatagrams, hip⟩

theorem Aside.trans {y'' : Host} (h : Aside y y') (h' : Aside y' y'') : Aside y y'' :=
  ⟨h'.datagrams.trans h.datagrams, h'.ip.trans h.ip⟩

theorem dhcpStep_aside (h : y.dhcpStep = some y') : Aside y y' := by
  have hat : ∀ p, Aside y (y.dhcpAt p) := fun _ => ⟨rfl, rfl⟩
  unfold dhcpStep at h
  split at h
  · split_ifs at h
    · exact (hat _).trans (call_aside h rfl)
    · cases h
      exact ⟨rfl, rfl⟩
  · exact (hat _).trans (sendUdp_aside h)
  · exact (hat _).trans (call_aside h rfl)
  · split at h
    · split_ifs at h
      all_goals
        cases h
        exact ⟨rfl, rfl⟩
    · cases h
  · exact (hat _).trans (sendUdp_aside h)
  · exact (hat _).trans (call_aside h rfl)
  · split at h
    · split_ifs at h
      · obtain ⟨hdatagrams, hip⟩ := call_aside h rfl
        exact ⟨hdatagrams, hip⟩
      · cases h
        exact ⟨rfl, rfl⟩
    · cases h
  · cases h

theorem judgeStep_aside {op : JudgeOp} (h : y.judgeStep op = some y') : Aside y y' := by
  unfold judgeStep at h
  split_ifs at h
  · cases op with
    | schedYield => exact call_aside h rfl
    | sendUdp => exact sendUdp_aside h
    | recvUdp => exact call_aside h rfl
  · cases h
    exact ⟨rfl, rfl⟩
  · exact call_aside h rfl

theorem step_aside (hl : l ≠ .ip) (h : y.step l = some y') : Aside y y' := by
  cases l with
  | tick cycles => exact call_aside h rfl
  | idle tty =>
    simp only [step] at h
    split_ifs at h
    unfold idleStep at h
    split at h
    all_goals exact call_aside h rfl
  | ip => exact absurd rfl hl
  | dhcp =>
    simp only [step] at h
    split_ifs at h
    exact dhcpStep_aside h
  | judge op =>
    simp only [step] at h
    split_ifs at h
    exact judgeStep_aside h
  | sent =>
    obtain ⟨⟨b, len⟩, -, rfl⟩ := Option.map_eq_some_iff.mp h
    exact ⟨rfl, rfl⟩
  | received frame =>
    obtain ⟨cap, -, h⟩ := Option.bind_eq_some_iff.mp h
    split_ifs at h
    cases h
    exact ⟨rfl, rfl⟩

/-- The IP task after a frame: the datagram of the frame is dispatched. -/
theorem ipStep_handles (hip : y.ip = .recv) (h : y.ipStep = some y') :
    y'.ip = .top ∧ y'.sched.log.datagrams = y.sched.log.datagrams ++ (handleFrame y.net y.frame).dispatched := by
  have hsingle := (handleFrame_outcome y.net y.frame).single
  have hhandled : y.handled = handleFrame y.net y.frame := rfl
  unfold ipStep at h
  rw [hip] at h
  dsimp only at h
  rw [hhandled] at h
  split at h
  · next b bs hsent =>
    have hnone : (handleFrame y.net y.frame).dispatched = [] := by
      rw [hsent, List.length_cons] at hsingle
      exact List.eq_nil_of_length_eq_zero (by omega)
    obtain ⟨hdatagrams, htop⟩ := transmit_datagrams h
    rw [hnone, List.append_nil]
    exact ⟨htop, hdatagrams⟩
  · next d ds hsent hdispatched =>
    obtain ⟨hdatagrams, htop⟩ := call_datagrams h
    rw [hdispatched, List.length_cons] at hsingle
    have hnil : ds = [] := List.eq_nil_of_length_eq_zero (by omega)
    rw [hdispatched, hnil]
    exact ⟨htop, hdatagrams⟩
  · next hsent hdispatched =>
    cases h
    rw [hdispatched, List.append_nil]
    exact ⟨rfl, rfl⟩

theorem step_datagrams (h : y.step l = some y') : y'.sched.log.datagrams =
    y.sched.log.datagrams ++ (y.handles l).flatMap fun q => (handleFrame q.1 q.2).dispatched := by
  by_cases hl : l = .ip
  · subst hl
    simp only [step] at h
    split_ifs at h
    cases hip : y.ip with
    | top =>
      unfold ipStep at h
      rw [hip] at h
      simp only [handles, hip, List.flatMap_nil, List.append_nil]
      exact (call_aside h rfl).datagrams
    | recv =>
      simp only [handles, hip, List.flatMap_cons, List.flatMap_nil, List.append_nil]
      exact (ipStep_handles hip h).2
  · have hnone : y.handles l = [] := by
      unfold handles
      split
      · exact absurd rfl hl
      · rfl
    rw [hnone, (step_aside hl h).datagrams]
    exact (List.append_nil _).symm

/-- However the step changes the host, the scheduler takes one honest step or none. -/
theorem step_sched (h : y.step l = some y') :
    y'.sched = y.sched ∨ ∃ k, y.sched.step k = some y'.sched ∧ y.Honest k := by
  cases step_effect h with
  | quiet _ _ _ _ _ hsched => exact hsched
  | armed _ _ _ hcall =>
    obtain ⟨s, hs, rfl⟩ := Option.map_eq_some_iff.mp hcall
    exact .inr ⟨_, hs, nofun⟩
  | handed _ y₁ _ b frame _ _ hsched _ _ htransmit =>
    obtain ⟨s, hs, rfl⟩ := Option.map_eq_some_iff.mp htransmit
    rw [(beginSendFrame_eq y₁ b frame).1, hsched] at hs
    exact .inr ⟨_, hs, nofun⟩
  | sent | received => exact .inl rfl

/-- What the device has stored is still there. -/
structure SameFrame (y y' : Host) : Prop where
  rx : y'.nic.rx = y.nic.rx
  frame : y'.frame = y.frame

theorem SameWire.sameFrame (h : SameWire y y') : SameFrame y y' := by
  refine ⟨by rw [h.nic], ?_⟩
  rw [frame, frame, h.nic, h.dmaBuff]

/-- A frame handed over by another task than the IP task is in the other buffer. -/
theorem handed_sameFrame {y₁ : Host} {b : Buffer} {bytes : List Byte} (hwire : SameWire y y₁)
    (howns : y.Owns b y₁.ip) (h : y₁.transmit b bytes = some y') (hip : y'.ip = y.ip) : SameFrame y y' := by
  obtain ⟨s, -, rfl⟩ := Option.map_eq_some_iff.mp h
  obtain ⟨-, hrecv⟩ := transmit_datagrams h
  obtain ⟨rfl, -, hold, htop⟩ | ⟨rfl, -⟩ := howns
  · rw [hip, hold, htop] at hrecv
    cases hrecv
  · obtain ⟨hrx, hframe⟩ := hwire.sameFrame
    exact ⟨hrx, hframe⟩

theorem step_sameFrame (hl : l ≠ .ip) (hframes : l.frames = []) (h : y.step l = some y') : SameFrame y y' := by
  cases step_effect h with
  | quiet _ _ _ hwire => exact hwire.sameFrame
  | armed => exact absurd rfl hl
  | handed _ y₁ _ b bytes _ hwire _ howns _ htransmit =>
    exact handed_sameFrame hwire howns htransmit (step_aside hl h).ip
  | sent => exact ⟨rfl, rfl⟩
  | received frame => cases hframes

/-- The IP task after a frame: no receive is under way. -/
theorem ipStep_rx (hcurrent : y.sched.current = iptaskTask) (hip : y.ip = .recv) (h : y.ipStep = some y') :
    y'.nic.rx = y.nic.rx := by
  cases ipStep_effect hcurrent h with
  | quiet _ _ _ hwire => rw [hwire.nic]
  | armed _ _ htop =>
    rw [hip] at htop
    cases htop
  | handed _ y₁ _ b bytes _ hwire _ _ _ htransmit =>
    obtain ⟨s, -, rfl⟩ := Option.map_eq_some_iff.mp htransmit
    rw [← hwire.nic]
    rfl

end Host

/-! ## Every run -/

/-- A run with the frames that the device has stored and those given to `handle_frame`. -/
structure Reception where
  host : Host
  received : List (List Byte)
  handled : List (NetState × Frame)

namespace Reception

open Host (iptaskTask frameCap)

def boot : Reception := ⟨.boot, [], []⟩

def step (r : Reception) (l : Host.Label) : Option Reception :=
  (r.host.step l).map fun y => ⟨y, r.received ++ l.frames, r.handled ++ r.host.handles l⟩

structure Inv (r : Reception) : Prop where
  handOff : Sched.HandOffInv r.host.sched
  loop : Sched.LoopInv r.host.sched
  armed : ∀ cap, r.host.nic.rx = some cap →
    cap = frameCap ∧ r.host.ip = .recv ∧ (r.host.sched.tasks iptaskTask).point = .inWait waitEthRecv
  frames : List.Forall₂ Carries (r.handled.map Prod.snd ++ r.host.pending) r.received
  datagrams : r.host.sched.log.datagrams = r.handled.flatMap fun q => (handleFrame q.1 q.2).dispatched

theorem boot_inv : Inv boot := ⟨Sched.boot_inv 4, Sched.boot_loopInv 4, nofun, .nil, rfl⟩

variable {r r' : Reception} {l : Host.Label}

/-- While the IP task runs no receive is under way. -/
theorem Inv.ipRuns (h : Inv r) (hcurrent : r.host.sched.current = iptaskTask) : r.host.nic.rx = none := by
  cases hrx : r.host.nic.rx with
  | none => rfl
  | some cap =>
    have hpoint := (h.armed cap hrx).2.2
    rw [← hcurrent, h.handOff.current] at hpoint
    cases hpoint

/-- An honest step of the scheduler leaves the IP task in its wait while a receive is under way. -/
theorem Inv.waits (h : Inv r) {s : Sched}
    (hsched : s = r.host.sched ∨ ∃ k, r.host.sched.step k = some s ∧ r.host.Honest k) :
    Sched.HandOffInv s ∧ Sched.LoopInv s ∧
      ((r.host.sched.tasks iptaskTask).point = .inWait waitEthRecv → r.host.nic.rx ≠ none →
        (s.tasks iptaskTask).point = .inWait waitEthRecv) := by
  obtain rfl | ⟨k, hk, hhonest⟩ := hsched
  · exact ⟨h.handOff, h.loop, fun ht _ => ht⟩
  · have heffect := Sched.step_effect hk
    refine ⟨Sched.step_inv h.handOff hk, Sched.step_loopInv h.handOff h.loop hk, fun ht hrx => ?_⟩
    obtain hstay | ⟨hpoll, -, e, he, hand⟩ := heffect.waits h.handOff h.loop (by decide) ht
    · exact hstay
    · have hidle : r.host.sched.idle = .pollEthRecv := IdlePoint.eq_of_event he rfl hand
      exact absurd (Option.isNone_iff_eq_none.mp ((hhonest hpoll).1 hidle)) hrx

theorem Inv.ip (h : Inv r) (hstep : r.step .ip = some r') : Inv r' := by
  obtain ⟨y', hy, rfl⟩ := Option.map_eq_some_iff.mp hstep
  obtain ⟨hh, hl, -⟩ := h.waits (Host.step_sched hy)
  have hdatagrams := Host.step_datagrams hy
  have hy' := hy
  simp only [Host.step] at hy'
  split_ifs at hy' with hcurrent
  have hrx := h.ipRuns hcurrent
  have hlog : y'.sched.log.datagrams = (r.handled ++ r.host.handles .ip).flatMap
      fun q => (handleFrame q.1 q.2).dispatched := by
    rw [hdatagrams, h.datagrams, List.flatMap_append]
  cases hip : r.host.ip with
  | top =>
    have hnone : r.host.handles .ip = [] := by simp only [Host.handles, hip]
    have hpending : r.host.pending = [] := by simp [Host.pending, hip]
    unfold Host.ipStep at hy'
    rw [hip] at hy'
    obtain ⟨s, hs, rfl⟩ := Option.map_eq_some_iff.mp hy'
    have hpoint := Sched.step_wait hs
    rw [show Sched.current _ = iptaskTask from hcurrent] at hpoint
    refine ⟨hh, hl, fun cap hcap => ⟨?_, rfl, hpoint⟩, ?_, hlog⟩
    · obtain rfl := Option.some.inj hcap
      decide
    · have hframes := h.frames
      rw [hpending] at hframes
      simpa [Host.pending, AxiEthernet.beginDmaRecv, hnone, Host.Label.frames] using hframes
  | recv =>
    have hhandles : r.host.handles .ip = [(r.host.net, r.host.frame)] := by simp only [Host.handles, hip]
    have hpending : r.host.pending = [r.host.frame] := by simp [Host.pending, hip, hrx]
    have htop := (Host.ipStep_handles hip hy').1
    refine ⟨hh, hl, fun cap hcap => ?_, ?_, hlog⟩
    · rw [Host.ipStep_rx hcurrent hip hy', hrx] at hcap
      cases hcap
    · have hframes := h.frames
      rw [hpending] at hframes
      simpa [Host.pending, htop, hhandles, Host.Label.frames] using hframes

theorem Inv.received (h : Inv r) {frame : List Byte} (hstep : r.step (.received frame) = some r') : Inv r' := by
  obtain ⟨y', hy, rfl⟩ := Option.map_eq_some_iff.mp hstep
  have hdatagrams := Host.step_datagrams hy
  obtain ⟨cap, hrx, hy'⟩ := Option.bind_eq_some_iff.mp hy
  split_ifs at hy' with hcap
  obtain ⟨rfl, hip, -⟩ := h.armed cap hrx
  have hpending : r.host.pending = [] := by simp [Host.pending, hrx]
  have hhandles : r.host.handles (.received frame) = [] := rfl
  rw [hhandles, List.flatMap_nil, List.append_nil] at hdatagrams
  cases hy'
  refine ⟨h.handOff, h.loop, nofun, ?_, ?_⟩
  · have hcarries : Carries ⟨(r.host.nic.received frame.length).lastRecvLen, writeBytes r.host.dmaBuff 0 frame⟩ frame := by
      refine ⟨?_, bytesAt_writeBytes _ _ _⟩
      have hshort : frame.length < 2 ^ 16 := Nat.lt_of_le_of_lt hcap (by decide)
      dsimp only [AxiEthernet.lastRecvLen, AxiEthernet.received]
      rw [AxiEthernet.and_lengthMask (by omega), Nat.mod_eq_of_lt hshort]
    have hframes := h.frames
    rw [hpending, List.append_nil] at hframes
    have hnow := List.rel_append hframes (.cons hcarries .nil)
    simpa [Host.pending, AxiEthernet.received, hip, hhandles, Host.Label.frames, Host.frame] using hnow
  · rw [hhandles, List.append_nil]
    exact h.datagrams

theorem Inv.other (h : Inv r) (hl : l ≠ .ip) (hframes : l.frames = []) (hstep : r.step l = some r') : Inv r' := by
  obtain ⟨y', hy, rfl⟩ := Option.map_eq_some_iff.mp hstep
  obtain ⟨hh, hloop, hrecv⟩ := h.waits (Host.step_sched hy)
  obtain ⟨hdatagrams, hip⟩ := Host.step_aside hl hy
  obtain ⟨hrx, hframe⟩ := Host.step_sameFrame hl hframes hy
  have hhandles : r.host.handles l = [] := by
    unfold Host.handles
    split
    · exact absurd rfl hl
    · rfl
  have hpending : y'.pending = r.host.pending := by rw [Host.pending, Host.pending, hip, hrx, hframe]
  refine ⟨hh, hloop, fun cap hcap => ?_, ?_, ?_⟩
  · dsimp only at hcap ⊢
    rw [hrx] at hcap
    obtain ⟨hfull, hip', hpoint⟩ := h.armed cap hcap
    exact ⟨hfull, hip.trans hip', hrecv hpoint (by simp [hcap])⟩
  · dsimp only
    rw [hpending, hhandles, hframes, List.append_nil, List.append_nil]
    exact h.frames
  · dsimp only
    rw [hdatagrams, hhandles, List.append_nil]
    exact h.datagrams

theorem step_inv (h : Inv r) (hstep : r.step l = some r') : Inv r' := by
  by_cases hl : l = .ip
  · subst hl
    exact h.ip hstep
  · cases hframes : l.frames with
    | nil => exact h.other hl hframes hstep
    | cons frame rest =>
      cases l with
      | received frame => exact h.received hstep
      | tick | idle | ip | dhcp | judge | sent => cases hframes

/-- In every run the frames received are those handled, each once and in order, with at most one
more that waits; the datagrams of all `recv_udp` calls are those of the handled frames. -/
theorem run_handles {ls : List Host.Label} (hrun : runSteps step boot ls = some r) :
    (∃ waiting, waiting.length ≤ 1 ∧ List.Forall₂ Carries (r.handled.map Prod.snd ++ waiting) r.received) ∧
      r.host.sched.log.datagrams = r.handled.flatMap fun q => (handleFrame q.1 q.2).dispatched := by
  have hinv : Inv r := runSteps_invariant (fun _ _ _ hr hl => step_inv hr hl) boot_inv hrun
  refine ⟨⟨r.host.pending, ?_, hinv.frames⟩, hinv.datagrams⟩
  unfold Host.pending
  split_ifs
  · exact Nat.le_refl 1
  · exact Nat.zero_le 1

/-- An ARP request is received and handled. -/
theorem run_handles_small : ∃ r, runSteps step boot (Host.smallOverlap ++ [.ip]) = some r ∧
    r.received = [Host.smallArp] ∧ r.handled.length = 1 ∧ ∃ waiting, waiting.length ≤ 1 ∧
      List.Forall₂ Carries (r.handled.map Prod.snd ++ waiting) r.received := by
  have hmap : (runSteps step boot (Host.smallOverlap ++ [.ip])).map (fun r => (r.received, r.handled.length)) =
      some ([Host.smallArp], 1) := by
    decide +kernel
  obtain ⟨r, hrun, heq⟩ := Option.map_eq_some_iff.mp hmap
  obtain ⟨hreceived, hhandled⟩ := Prod.mk.inj heq
  exact ⟨r, hrun, hreceived, hhandled, (run_handles hrun).1⟩

end Reception

end VijosOS
