import VijosOS.Host.Host
import VijosOS.Net.Outcome
import VijosOS.Task.Suspension

/-!
# Exclusive transmission

The driver has one transmit descriptor, and whoever hands it a frame waits for the device.
While a transmission is under way its sender stays in that wait, so nobody else disturbs it
as long as a frame is handed over only when no sender waits or the device is free.
-/

namespace VijosOS

open Library

namespace Host

open Sched (idleTask)

variable {y y' : Host} {l : Label}

/-! ## The steps -/

/-- The driver, the buffers and the two logs of frames are as before. -/
structure SameWire (y y' : Host) : Prop where
  nic : y'.nic = y.nic
  dmaBuff : y'.dmaBuff = y.dmaBuff
  udpBuff : y'.udpBuff = y.udpBuff
  handed : y'.handed = y.handed
  transmitted : y'.transmitted = y.transmitted

/-- The polls of the network are answered by the driver. -/
def Honest (y : Host) (k : Sched.Label) : Prop :=
  k = .poll true → (y.sched.idle = .pollEthRecv → y.nic.pollRecv = true) ∧
    (y.sched.idle = .pollEthSend → y.nic.pollSend = true)

/-- Whose code builds its frames in which buffer. -/
def Owns (y : Host) (b : Buffer) (ip' : IpPoint) : Prop :=
  (b = .dmaBuff ∧ y.sched.current = iptaskTask ∧ y.ip = .recv ∧ ip' = .top) ∨
    (b = .udpBuff ∧ y.sched.current ≠ idleTask ∧ y.sched.current ≠ iptaskTask ∧ ip' = y.ip)

inductive Effect (y : Host) : Label → Host → Prop
  | quiet (l : Label) (y' : Host) (hl : l ≠ .sent) (hwire : SameWire y y')
      (hip : y'.ip = y.ip ∨ y.sched.current = iptaskTask ∧ y'.ip = .top)
      (hsched : y'.sched = y.sched ∨ ∃ k, y.sched.step k = some y'.sched ∧ y.Honest k) : Effect y l y'
  | armed (y' : Host) (hcurrent : y.sched.current = iptaskTask) (hip : y.ip = .top)
      (h : call { y with nic := y.nic.beginDmaRecv frameCap, ip := .recv } (.wait waitEthRecv) = some y') :
      Effect y .ip y'
  | handed (l : Label) (y₁ y' : Host) (b : Buffer) (frame : List Byte) (hl : l ≠ .sent)
      (hwire : SameWire y y₁) (hsched : y₁.sched = y.sched) (howns : y.Owns b y₁.ip)
      (hshort : frame.length < 2 ^ 16) (h : y₁.transmit b frame = some y') : Effect y l y'
  | sent (b : Buffer) (len : Nat) (htx : y.nic.tx = some (b, len)) : Effect y .sent
      { y with nic := y.nic.sent, transmitted := y.transmitted ++ [bytesAt (y.buffer b) 0 len] }
  | received (frame : List Byte) (cap : Nat) (hrx : y.nic.rx = some cap) : Effect y (.received frame)
      { y with nic := y.nic.received frame.length, dmaBuff := writeBytes y.dmaBuff 0 frame }

/-- A call into the scheduler from a state that differs only in what tasks know. -/
theorem call_effect {y₁ : Host} {k : Sched.Label} (hl : l ≠ .sent) (hwire : SameWire y y₁)
    (hsched : y₁.sched = y.sched) (hip : y₁.ip = y.ip ∨ y.sched.current = iptaskTask ∧ y₁.ip = .top)
    (hhonest : y.Honest k) (h : y₁.call k = some y') : Effect y l y' := by
  obtain ⟨s, hs, rfl⟩ := Option.map_eq_some_iff.mp h
  exact .quiet l _ hl ⟨hwire.nic, hwire.dmaBuff, hwire.udpBuff, hwire.handed, hwire.transmitted⟩ hip
    (.inr ⟨k, hsched ▸ hs, hhonest⟩)

theorem idleStep_effect {tty : Bool} (h : y.idleStep tty = some y') : Effect y (.idle tty) y' := by
  unfold idleStep at h
  split at h
  · next hidle => exact call_effect nofun ⟨rfl, rfl, rfl, rfl, rfl⟩ rfl (.inl rfl) (fun _ => by simp [hidle]) h
  · next hidle => exact call_effect nofun ⟨rfl, rfl, rfl, rfl, rfl⟩ rfl (.inl rfl) (fun _ => by simp [hidle]) h
  · next hidle =>
    refine call_effect nofun ⟨rfl, rfl, rfl, rfl, rfl⟩ rfl (.inl rfl) (fun hpoll => ?_) h
    exact ⟨fun _ => Sched.Label.poll.inj hpoll, by simp [hidle]⟩
  · next hidle =>
    refine call_effect nofun ⟨rfl, rfl, rfl, rfl, rfl⟩ rfl (.inl rfl) (fun hpoll => ?_) h
    exact ⟨by simp [hidle], fun _ => Sched.Label.poll.inj hpoll⟩
  · exact call_effect (k := .idle) nofun ⟨rfl, rfl, rfl, rfl, rfl⟩ rfl (.inl rfl) nofun h

theorem ipStep_effect (hcurrent : y.sched.current = iptaskTask) (h : y.ipStep = some y') :
    Effect y .ip y' := by
  cases hip : y.ip with
  | top =>
    simp only [ipStep, hip] at h
    exact .armed y' hcurrent hip h
  | recv =>
    have hwire : SameWire y { y with net := y.handled.net, ip := .top } := ⟨rfl, rfl, rfl, rfl, rfl⟩
    cases hsent : y.handled.sent with
    | cons b rest =>
      simp only [ipStep, hip, hsent] at h
      have hshort := (handleFrame_outcome y.net ⟨y.nic.lastRecvLen, y.dmaBuff⟩).short b (by
        rw [show (handleFrame y.net ⟨y.nic.lastRecvLen, y.dmaBuff⟩).sent = b :: rest from hsent]
        exact List.mem_cons_self)
      exact .handed .ip _ y' .dmaBuff b nofun hwire rfl (.inl ⟨rfl, hcurrent, hip, rfl⟩) hshort h
    | nil =>
      cases hdispatched : y.handled.dispatched with
      | cons d rest =>
        simp only [ipStep, hip, hsent, hdispatched] at h
        exact call_effect (k := .dispatch d) nofun hwire rfl (.inr ⟨hcurrent, rfl⟩) nofun h
      | nil =>
        simp only [ipStep, hip, hsent, hdispatched] at h
        cases h
        exact .quiet .ip _ nofun hwire (.inr ⟨hcurrent, rfl⟩) (.inl rfl)

/-- `send_udp` by a task other than idle and the IP task. -/
theorem sendUdp_effect {y₁ : Host} {sport dport : Port} {daddr : Ipv6Addr} {payload : List Byte}
    (hl : l ≠ .sent) (hidle : y.sched.current ≠ idleTask) (hiptask : y.sched.current ≠ iptaskTask)
    (hwire : SameWire y y₁) (hsched : y₁.sched = y.sched) (hip : y₁.ip = y.ip)
    (h : y₁.sendUdp sport daddr dport payload = some y') : Effect y l y' := by
  have houtcome := sendUdp_outcome y₁.net y₁.udpBuff sport daddr dport payload
  cases hsent : (VijosOS.sendUdp y₁.net y₁.udpBuff sport daddr dport payload).sent with
  | cons b rest =>
    simp only [sendUdp, hsent] at h
    have hshort := houtcome.short b (by
      rw [hsent]
      exact List.mem_cons_self)
    exact .handed l y₁ y' .udpBuff b hl hwire hsched (.inr ⟨rfl, hidle, hiptask, hip⟩) hshort h
  | nil =>
    simp only [sendUdp, hsent] at h
    cases h
    exact .quiet l _ hl hwire (.inl hip) (.inl hsched)

theorem dhcpStep_effect (hcurrent : y.sched.current = dhcpTask) (h : y.dhcpStep = some y') :
    Effect y .dhcp y' := by
  have hidle : y.sched.current ≠ idleTask := by
    rw [hcurrent]
    decide
  have hiptask : y.sched.current ≠ iptaskTask := by
    rw [hcurrent]
    decide
  have hcall : ∀ (y₁ : Host) (k : Sched.Label), y₁.call k = some y' → SameWire y y₁ → y₁.sched = y.sched →
      y₁.ip = y.ip → k ≠ .poll true → Effect y .dhcp y' := fun y₁ k h hwire hsched hip hk =>
    call_effect nofun hwire hsched (.inl hip) (fun hpoll => absurd hpoll hk) h
  have hat : ∀ p, SameWire y (y.dhcpAt p) := fun _ => ⟨rfl, rfl, rfl, rfl, rfl⟩
  cases hpoint : y.dhcp.point with
  | entry =>
    simp only [dhcpStep, hpoint] at h
    split_ifs at h
    · exact hcall _ _ h (hat _) rfl rfl nofun
    · cases h
      exact .quiet .dhcp _ nofun ⟨rfl, rfl, rfl, rfl, rfl⟩ (.inl rfl) (.inl rfl)
  | discover =>
    simp only [dhcpStep, hpoint] at h
    exact sendUdp_effect nofun hidle hiptask (hat .discovered) rfl rfl h
  | discovered =>
    simp only [dhcpStep, hpoint] at h
    exact hcall _ _ h (hat _) rfl rfl nofun
  | offer n =>
    simp only [dhcpStep, hpoint] at h
    split at h
    · split_ifs at h
      all_goals cases h
      · exact .quiet .dhcp _ nofun ⟨rfl, rfl, rfl, rfl, rfl⟩ (.inl rfl) (.inl rfl)
      · exact .quiet .dhcp _ nofun (hat _) (.inl rfl) (.inl rfl)
    · cases h
  | request =>
    simp only [dhcpStep, hpoint] at h
    exact sendUdp_effect nofun hidle hiptask (hat .requested) rfl rfl h
  | requested =>
    simp only [dhcpStep, hpoint] at h
    exact hcall _ _ h (hat _) rfl rfl nofun
  | ack n =>
    simp only [dhcpStep, hpoint] at h
    split at h
    · split_ifs at h
      · exact hcall _ _ h ⟨rfl, rfl, rfl, rfl, rfl⟩ rfl rfl nofun
      · cases h
        exact .quiet .dhcp _ nofun (hat _) (.inl rfl) (.inl rfl)
    · cases h
  | done =>
    simp only [dhcpStep, hpoint] at h
    cases h

theorem judgeStep_effect {op : JudgeOp} (hcurrent : y.sched.current = judgeTask)
    (h : y.judgeStep op = some y') : Effect y (.judge op) y' := by
  have hidle : y.sched.current ≠ idleTask := by
    rw [hcurrent]
    decide
  have hiptask : y.sched.current ≠ iptaskTask := by
    rw [hcurrent]
    decide
  have hwire : SameWire y y := ⟨rfl, rfl, rfl, rfl, rfl⟩
  unfold judgeStep at h
  split_ifs at h
  · cases op with
    | schedYield => exact call_effect (k := .schedYield) nofun hwire rfl (.inl rfl) nofun h
    | sendUdp => exact sendUdp_effect nofun hidle hiptask hwire rfl rfl h
    | recvUdp filter len timeout =>
      exact call_effect (k := .recvUdp filter len timeout) nofun hwire rfl (.inl rfl) nofun h
  · cases h
    exact .quiet _ _ nofun ⟨rfl, rfl, rfl, rfl, rfl⟩ (.inl rfl) (.inl rfl)
  · exact call_effect (k := .schedYield) nofun hwire rfl (.inl rfl) nofun h

theorem step_effect (h : y.step l = some y') : Effect y l y' := by
  cases l with
  | tick cycles => exact call_effect (k := .tick cycles) nofun ⟨rfl, rfl, rfl, rfl, rfl⟩ rfl (.inl rfl) nofun h
  | idle tty =>
    simp only [step] at h
    split_ifs at h
    exact idleStep_effect h
  | ip =>
    simp only [step] at h
    split_ifs at h with hcurrent
    exact ipStep_effect hcurrent h
  | dhcp =>
    simp only [step] at h
    split_ifs at h with hcurrent
    exact dhcpStep_effect hcurrent h
  | judge op =>
    simp only [step] at h
    split_ifs at h with hcurrent
    exact judgeStep_effect hcurrent h
  | sent =>
    obtain ⟨⟨b, len⟩, htx, rfl⟩ := Option.map_eq_some_iff.mp h
    exact .sent b len htx
  | received frame =>
    obtain ⟨cap, hrx, h⟩ := Option.bind_eq_some_iff.mp h
    split_ifs at h
    cases h
    exact .received frame cap hrx

/-! ## The invariant -/

/-- The bytes that the transmission under way reads. -/
def inFlight (y : Host) : List (List Byte) :=
  y.nic.tx.toList.map fun (b, len) => bytesAt (y.buffer b) 0 len

structure WireInv (y : Host) : Prop where
  handOff : Sched.HandOffInv y.sched
  loop : Sched.LoopInv y.sched
  notBegin : y.nic.sendNotBegin = true → y.nic.tx = none
  armed : ∀ cap, y.nic.rx = some cap →
    y.ip = .recv ∧ (y.sched.tasks iptaskTask).point = .inWait waitEthRecv
  flight : ∀ b len, y.nic.tx = some (b, len) →
    ∃ t, (y.sched.tasks t).point = .inWait waitEthSend ∧ (b = .dmaBuff → t = iptaskTask ∧ y.ip = .top)
  log : y.handed = y.transmitted ++ y.inFlight

theorem boot_wireInv : WireInv boot :=
  ⟨Sched.boot_inv 4, Sched.boot_loopInv 4, fun _ => rfl, nofun, nofun, rfl⟩

/-- The step hands a frame to the driver. -/
def Hands (y : Host) (l : Label) : Prop := ∃ y', y.step l = some y' ∧ y'.handed ≠ y.handed

/-- A frame is handed over only when no task waits for the driver or the driver is free. -/
def Guarded (y : Host) (l : Label) : Prop :=
  y.Hands l → (∀ t, (y.sched.tasks t).point ≠ .inWait waitEthSend) ∨ y.nic.pollSend = true

/-- No frame is handed over while one is transmitted, and its bytes stay as they are. -/
def Undisturbed (y y' : Host) : Prop :=
  ∀ b len, y.nic.tx = some (b, len) →
    y'.handed = y.handed ∧ y'.nic.tx = some (b, len) ∧
      bytesAt (y'.buffer b) 0 len = bytesAt (y.buffer b) 0 len

/-- Until the device is done the transmission under way is undisturbed; what has been handed
over is what has been transmitted, with what is being transmitted. -/
def Exclusive (y : Host) (l : Label) : Prop :=
  ∀ y', y.step l = some y' →
    (l ≠ .sent → y.Undisturbed y') ∧ y'.handed = y'.transmitted ++ y'.inFlight

theorem WireInv.running (h : WireInv y) {w : BitVec 64} :
    (y.sched.tasks y.sched.current).point ≠ .inWait w := by
  rw [h.handOff.current]
  nofun

theorem WireInv.pollSend (h : WireInv y) : y.nic.pollSend = true ↔ y.nic.tx = none := by
  rw [AxiEthernet.pollSend, Bool.or_eq_true, Option.isNone_iff_eq_none]
  exact ⟨fun hor => hor.elim h.notBegin id, .inr⟩

/-- What an honest step of the scheduler leaves of the waits for the driver. -/
theorem WireInv.waits (h : WireInv y) {s : Sched}
    (hsched : s = y.sched ∨ ∃ k, y.sched.step k = some s ∧ y.Honest k) :
    Sched.HandOffInv s ∧ Sched.LoopInv s ∧
    (∀ t, (y.sched.tasks t).point = .inWait waitEthSend → y.nic.tx ≠ none →
      (s.tasks t).point = .inWait waitEthSend) ∧
    ((y.sched.tasks iptaskTask).point = .inWait waitEthRecv → y.nic.rx ≠ none →
      (s.tasks iptaskTask).point = .inWait waitEthRecv) := by
  obtain rfl | ⟨k, hk, hhonest⟩ := hsched
  · exact ⟨h.handOff, h.loop, fun _ ht _ => ht, fun ht _ => ht⟩
  · have heffect := Sched.step_effect hk
    refine ⟨Sched.step_inv h.handOff hk, Sched.step_loopInv h.handOff h.loop hk,
      fun t ht htx => ?_, fun ht hrx => ?_⟩
    · obtain hstay | ⟨hpoll, -, e, he, hand⟩ := heffect.waits h.handOff h.loop (by decide) ht
      · exact hstay
      · have hidle : y.sched.idle = .pollEthSend := IdlePoint.eq_of_event he rfl hand
        exact absurd (h.pollSend.mp ((hhonest hpoll).2 hidle)) htx
    · obtain hstay | ⟨hpoll, -, e, he, hand⟩ := heffect.waits h.handOff h.loop (by decide) ht
      · exact hstay
      · have hidle : y.sched.idle = .pollEthRecv := IdlePoint.eq_of_event he rfl hand
        exact absurd (Option.isNone_iff_eq_none.mp ((hhonest hpoll).1 hidle)) hrx

/-- While the IP task runs, no receive is under way, and no frame of its buffer is transmitted. -/
theorem WireInv.ipRuns (h : WireInv y) (hcurrent : y.sched.current = iptaskTask) :
    y.nic.rx = none ∧ ∀ len, y.nic.tx ≠ some (.dmaBuff, len) := by
  constructor
  · cases hrx : y.nic.rx with
    | none => rfl
    | some cap => exact absurd (h.armed cap hrx).2 (hcurrent ▸ h.running)
  · intro len htx
    obtain ⟨t, ht, hdma⟩ := h.flight .dmaBuff len htx
    rw [(hdma rfl).1, ← hcurrent] at ht
    exact h.running ht

theorem SameWire.buffer (h : SameWire y y') (b : Buffer) : y'.buffer b = y.buffer b := by
  cases b with
  | dmaBuff => exact h.dmaBuff
  | udpBuff => exact h.udpBuff

theorem SameWire.inFlight (h : SameWire y y') : y'.inFlight = y.inFlight := by
  simp only [Host.inFlight, h.nic, h.buffer]

theorem SameWire.undisturbed (h : SameWire y y') : y.Undisturbed y' := by
  intro b len htx
  rw [h.nic, h.buffer]
  exact ⟨h.handed, htx, rfl⟩

/-! ## One step -/

theorem quiet_wireInv (h : WireInv y) (hwire : SameWire y y')
    (hip : y'.ip = y.ip ∨ y.sched.current = iptaskTask ∧ y'.ip = .top)
    (hsched : y'.sched = y.sched ∨ ∃ k, y.sched.step k = some y'.sched ∧ y.Honest k) : WireInv y' := by
  obtain ⟨hh, hl, hsend, hrecv⟩ := h.waits hsched
  refine ⟨hh, hl, ?_, fun cap hcap => ?_, fun b len htx => ?_, ?_⟩
  · rw [hwire.nic]
    exact h.notBegin
  · rw [hwire.nic] at hcap
    have hsome : y.nic.rx ≠ none := by simp [hcap]
    obtain ⟨hip', hpoint⟩ := h.armed cap hcap
    obtain hsame | ⟨hcurrent, -⟩ := hip
    · exact ⟨hsame.trans hip', hrecv hpoint hsome⟩
    · exact absurd (h.ipRuns hcurrent).1 hsome
  · rw [hwire.nic] at htx
    obtain ⟨t, ht, hdma⟩ := h.flight b len htx
    refine ⟨t, hsend t ht (by simp [htx]), fun hb => ⟨(hdma hb).1, ?_⟩⟩
    obtain hsame | ⟨-, htop⟩ := hip
    · exact hsame.trans (hdma hb).2
    · exact htop
  · rw [hwire.handed, hwire.transmitted, hwire.inFlight]
    exact h.log

theorem armed_wireInv (h : WireInv y) (hcurrent : y.sched.current = iptaskTask)
    (hcall : call { y with nic := y.nic.beginDmaRecv frameCap, ip := .recv } (.wait waitEthRecv) = some y') :
    WireInv y' ∧ y.Undisturbed y' := by
  obtain ⟨s, hs, rfl⟩ := Option.map_eq_some_iff.mp hcall
  obtain ⟨hh, hl, hsend, -⟩ := h.waits (.inr ⟨_, hs, nofun⟩)
  have hother := (h.ipRuns hcurrent).2
  have hpoint := Sched.step_wait hs
  rw [show Sched.current _ = iptaskTask from hcurrent] at hpoint
  refine ⟨⟨hh, hl, h.notBegin, fun cap _ => ⟨rfl, hpoint⟩, fun b len htx => ?_, h.log⟩,
    fun b len htx => ⟨rfl, htx, rfl⟩⟩
  obtain ⟨t, ht, -⟩ := h.flight b len htx
  refine ⟨t, hsend t ht (by simp [show y.nic.tx = _ from htx]), fun hb => ?_⟩
  subst hb
  exact absurd htx (hother len)

/-- What `eth_begin_send_frame` leaves alone, and the buffer that it reads. -/
theorem beginSendFrame_eq (y : Host) (b : Buffer) (frame : List Byte) :
    (y.beginSendFrame b frame).sched = y.sched ∧ (y.beginSendFrame b frame).ip = y.ip ∧
      (y.beginSendFrame b frame).transmitted = y.transmitted ∧
      (y.beginSendFrame b frame).buffer b = writeBytes (y.buffer b) 0 frame := by
  cases b with
  | dmaBuff | udpBuff => exact ⟨rfl, rfl, rfl, rfl⟩

theorem transmit_handed {y₁ : Host} {b : Buffer} {frame : List Byte} (hwire : SameWire y y₁)
    (h : y₁.transmit b frame = some y') : y'.handed = y.handed ++ [frame] := by
  obtain ⟨s, -, rfl⟩ := Option.map_eq_some_iff.mp h
  rw [← hwire.handed]
  rfl

theorem handed_wireInv (h : WireInv y) (hfree : y.nic.tx = none) {y₁ : Host} {b : Buffer} {frame : List Byte}
    (hwire : SameWire y y₁) (hsched : y₁.sched = y.sched) (howns : y.Owns b y₁.ip)
    (hshort : frame.length < 2 ^ 16) (htransmit : y₁.transmit b frame = some y') : WireInv y' := by
  obtain ⟨s, hs, rfl⟩ := Option.map_eq_some_iff.mp htransmit
  obtain ⟨hsched', hip, htransmitted, hbuffer⟩ := beginSendFrame_eq y₁ b frame
  rw [hsched', hsched] at hs
  obtain ⟨hh, hl, -, hrecv⟩ := h.waits (.inr ⟨_, hs, nofun⟩)
  have hnic : (y₁.beginSendFrame b frame).nic = y.nic.beginDmaSend b frame.length := by
    rw [← hwire.nic]
    rfl
  have htx : (y₁.beginSendFrame b frame).nic.tx = some (b, frame.length) := by
    rw [hnic, AxiEthernet.beginDmaSend, AxiEthernet.and_lengthMask (hshort.trans (by norm_num))]
  refine ⟨hh, hl, fun hbegin => ?_, fun cap hcap => ?_, fun b' len hflight => ?_, ?_⟩
  · dsimp only at hbegin
    rw [hnic] at hbegin
    cases hbegin
  · dsimp only at hcap ⊢
    rw [hnic] at hcap
    change y.nic.rx = some cap at hcap
    obtain ⟨hip', hpoint⟩ := h.armed cap hcap
    obtain ⟨-, hcurrent, -⟩ | ⟨-, -, -, hsame⟩ := howns
    · rw [(h.ipRuns hcurrent).1] at hcap
      cases hcap
    · exact ⟨hip.trans (hsame.trans hip'), hrecv hpoint (by simp [hcap])⟩
  · obtain ⟨rfl, rfl⟩ := Prod.mk.inj (Option.some.inj (htx.symm.trans hflight))
    refine ⟨y.sched.current, Sched.step_wait hs, fun hb => ?_⟩
    obtain ⟨-, hcurrent, -, htop⟩ | ⟨hudp, -⟩ := howns
    · exact ⟨hcurrent, hip.trans htop⟩
    · rw [hudp] at hb
      cases hb
  · have hlog : y.handed = y.transmitted := by
      rw [h.log, inFlight, hfree]
      exact List.append_nil _
    have hflight : inFlight { y₁.beginSendFrame b frame with sched := s } = [frame] := by
      have hbytes : bytesAt ((y₁.beginSendFrame b frame).buffer b) 0 frame.length = frame := by
        rw [hbuffer, bytesAt_writeBytes]
      rw [inFlight]
      dsimp only
      rw [htx]
      exact congrArg (fun f => [f]) hbytes
    rw [hflight]
    dsimp only
    rw [htransmitted, hwire.transmitted, ← hlog, ← hwire.handed]
    rfl

theorem received_wireInv (h : WireInv y) (frame : List Byte) {cap : Nat} (hrx : y.nic.rx = some cap)
    (hy : y' = { y with nic := y.nic.received frame.length, dmaBuff := writeBytes y.dmaBuff 0 frame }) :
    WireInv y' ∧ y.Undisturbed y' := by
  have hother : ∀ len, y.nic.tx ≠ some (.dmaBuff, len) := by
    intro len htx
    obtain ⟨t, -, hdma⟩ := h.flight .dmaBuff len htx
    have hip := (h.armed cap hrx).1
    rw [(hdma rfl).2] at hip
    cases hip
  have hbuffer : ∀ b len, y.nic.tx = some (b, len) → y'.buffer b = y.buffer b := by
    intro b len htx
    cases b with
    | dmaBuff => exact absurd htx (hother len)
    | udpBuff =>
      rw [hy]
      rfl
  have hflight : y'.inFlight = y.inFlight := by
    have htx : y'.nic.tx = y.nic.tx := by
      rw [hy]
      rfl
    rw [inFlight, inFlight, htx]
    cases hnow : y.nic.tx with
    | none => rfl
    | some d => exact congrArg (fun m => [bytesAt m 0 d.2]) (hbuffer d.1 d.2 hnow)
  have hlog : y'.handed = y'.transmitted ++ y'.inFlight := by
    rw [hflight, hy]
    exact h.log
  have hsame : ∀ b len, y.nic.tx = some (b, len) → y'.handed = y.handed ∧ y'.nic.tx = some (b, len) := by
    intro b len htx
    rw [hy]
    exact ⟨rfl, htx⟩
  refine ⟨?_, fun b len htx => ⟨(hsame b len htx).1, (hsame b len htx).2, by rw [hbuffer b len htx]⟩⟩
  subst hy
  exact ⟨h.handOff, h.loop, h.notBegin, nofun, h.flight, hlog⟩

theorem sent_wireInv (h : WireInv y) {b : Buffer} {len : Nat} (htx : y.nic.tx = some (b, len)) :
    WireInv { y with nic := y.nic.sent, transmitted := y.transmitted ++ [bytesAt (y.buffer b) 0 len] } := by
  refine ⟨h.handOff, h.loop, fun _ => rfl, h.armed, nofun, ?_⟩
  have hlog := h.log
  rw [inFlight, htx] at hlog
  exact hlog.trans (List.append_nil _).symm

theorem step_wireInv (h : WireInv y) (hguard : y.Guarded l) (hstep : y.step l = some y') :
    WireInv y' ∧ (l ≠ .sent → y.Undisturbed y') := by
  cases step_effect hstep with
  | quiet _ _ hl hwire hip hsched => exact ⟨quiet_wireInv h hwire hip hsched, fun _ => hwire.undisturbed⟩
  | armed _ hcurrent hip hcall =>
    obtain ⟨hinv, hundisturbed⟩ := armed_wireInv h hcurrent hcall
    exact ⟨hinv, fun _ => hundisturbed⟩
  | handed _ y₁ _ b frame hl hwire hsched howns hshort htransmit =>
    have hlog : y'.handed = y.handed ++ [frame] := transmit_handed hwire htransmit
    have hfree : y.nic.tx = none := by
      obtain hnobody | hpoll := hguard ⟨y', hstep, by simp [hlog]⟩
      · cases htx : y.nic.tx with
        | none => rfl
        | some d =>
          obtain ⟨t, ht, -⟩ := h.flight d.1 d.2 htx
          exact absurd ht (hnobody t)
      · exact h.pollSend.mp hpoll
    refine ⟨handed_wireInv h hfree hwire hsched howns hshort htransmit, fun _ b' len htx => ?_⟩
    rw [hfree] at htx
    cases htx
  | sent b len htx => exact ⟨sent_wireInv h htx, fun hl => absurd rfl hl⟩
  | received frame cap hrx =>
    obtain ⟨hinv, hundisturbed⟩ := received_wireInv h frame hrx rfl
    exact ⟨hinv, fun _ => hundisturbed⟩

/-- Handing over a frame while one is transmitted disturbs it. -/
theorem guarded_iff_exclusive (h : WireInv y) : y.Guarded l ↔ y.Exclusive l := by
  constructor
  · intro hguard y' hstep
    obtain ⟨hinv, hundisturbed⟩ := step_wireInv h hguard hstep
    exact ⟨hundisturbed, hinv.log⟩
  · rintro hexclusive ⟨y', hstep, hne⟩
    obtain ⟨hundisturbed, -⟩ := hexclusive y' hstep
    cases htx : y.nic.tx with
    | none => exact .inr (h.pollSend.mpr htx)
    | some d =>
      have hl : l ≠ .sent := by
        rintro rfl
        obtain ⟨d', -, rfl⟩ := Option.map_eq_some_iff.mp hstep
        exact hne rfl
      exact absurd (hundisturbed hl d.1 d.2 htx).1 hne

end Host

end VijosOS
