import VijosOS.Host.Transmission
import VijosOS.Net.Asks

/-!
# Who sends when

Three tasks hand frames to the driver: the IP task when a received frame asks for an answer, the
DHCP client until it has an address, and the judge from then on. The last two never overlap. So
every frame is transmitted undisturbed exactly as long as no answer overlaps with a datagram.
-/

namespace VijosOS

open Library

namespace Host

open Sched (idleTask)

variable {y y' : Host} {l : Label}

/-! ## The senders -/

/-- What the tasks that wait for the driver are. -/
def MaySend (y : Host) (t : Nat) : Prop :=
  t = iptaskTask ∨ t = dhcpTask ∧ y.dhcp.point ≠ .done ∨ t = judgeTask ∧ y.judging = true

/-- The judge starts after the DHCP client is done, and each waits for the driver in its time. -/
structure SenderInv (y : Host) : Prop where
  handOff : Sched.HandOffInv y.sched
  ready : y.net.ipReady = true → y.dhcp.point = .done
  started : y.judging = true → y.dhcp.point = .done
  waits : ∀ t, (y.sched.tasks t).point = .inWait waitEthSend → y.MaySend t

theorem boot_senderInv : SenderInv boot := by
  refine ⟨Sched.boot_inv 4, (fun h => by cases h), (fun h => by cases h), fun t ht => ?_⟩
  by_cases hidle : t = idleTask
  · subst hidle
    cases ht
  · rw [show boot.sched.tasks t = createTask from if_neg hidle] at ht
    cases ht

/-- The task that runs, or the network, has changed what it knows. -/
theorem SenderInv.stay (h : SenderInv y) (hsched : y'.sched = y.sched)
    (hready : y'.net.ipReady = true → y'.dhcp.point = .done)
    (hstarted : y'.judging = true → y'.dhcp.point = .done)
    (hold : ∀ t, t ≠ y.sched.current → y.MaySend t → y'.MaySend t) : SenderInv y' := by
  refine ⟨hsched ▸ h.handOff, hready, hstarted, fun t ht => ?_⟩
  rw [hsched] at ht
  refine hold t ?_ (h.waits t ht)
  rintro rfl
  rw [h.handOff.current] at ht
  cases ht

theorem SenderInv.same (h : SenderInv y) (hsched : y'.sched = y.sched)
    (hready : y'.net.ipReady = y.net.ipReady) (hdhcp : y'.dhcp = y.dhcp)
    (hjudging : y'.judging = y.judging) : SenderInv y' := by
  refine h.stay hsched ?_ ?_ fun t _ hmay => ?_
  · rw [hready, hdhcp]
    exact h.ready
  · rw [hjudging, hdhcp]
    exact h.started
  · rwa [MaySend, hdhcp, hjudging]

theorem SenderInv.call {k : Sched.Label} (hcall : y.call k = some y') (h : SenderInv y)
    (hmay : k = .wait waitEthSend → y.MaySend y.sched.current) : SenderInv y' := by
  obtain ⟨s, hs, rfl⟩ := Option.map_eq_some_iff.mp hcall
  have hhandOff := Sched.step_inv h.handOff hs
  refine ⟨hhandOff, h.ready, h.started, fun t ht => ?_⟩
  obtain hold | ⟨rfl, hk⟩ := (Sched.step_effect hs).entersWait h.handOff hhandOff ht
  · exact h.waits t hold
  · exact hmay hk

theorem SenderInv.transmit (h : SenderInv y) {b : Buffer} {frame : List Byte}
    (hmay : y.MaySend y.sched.current) (htransmit : y.transmit b frame = some y') : SenderInv y' := by
  have hbegin : SenderInv (y.beginSendFrame b frame) := by
    cases b with
    | dmaBuff | udpBuff => exact h.same rfl rfl rfl rfl
  refine hbegin.call htransmit fun _ => ?_
  cases b with
  | dmaBuff | udpBuff => exact hmay

theorem SenderInv.sendUdp (h : SenderInv y) {sport dport : Port} {daddr : Ipv6Addr} {payload : List Byte}
    (hmay : y.MaySend y.sched.current) (hsend : y.sendUdp sport daddr dport payload = some y') :
    SenderInv y' := by
  unfold Host.sendUdp at hsend
  split at hsend
  · exact h.transmit hmay hsend
  · cases hsend
    exact h

/-- The client, not yet done, goes on. -/
theorem SenderInv.client (h : SenderInv y) (hcurrent : y.sched.current = dhcpTask)
    (hpoint : y.dhcp.point ≠ .done) (hsched : y'.sched = y.sched)
    (hready : y'.net.ipReady = true → y.net.ipReady = true ∨ y'.dhcp.point = .done)
    (hjudging : y'.judging = y.judging) : SenderInv y' := by
  refine h.stay hsched (fun hr => ?_) (fun hj => ?_) fun t ht hmay => ?_
  · exact (hready hr).elim (fun hold => absurd (h.ready hold) hpoint) id
  · exact absurd (h.started (hjudging ▸ hj)) hpoint
  · obtain hip | ⟨hdhcp, -⟩ | ⟨ht, hj⟩ := hmay
    · exact .inl hip
    · exact absurd (hdhcp.trans hcurrent.symm) ht
    · exact .inr (.inr ⟨ht, hjudging.trans hj⟩)

theorem dhcpStep_senderInv (h : SenderInv y) (hcurrent : y.sched.current = dhcpTask)
    (hstep : y.dhcpStep = some y') : SenderInv y' := by
  have hat : ∀ p, y.dhcp.point ≠ .done → SenderInv (y.dhcpAt p) := fun p hpoint =>
    h.client hcurrent hpoint rfl .inl rfl
  have hmay : ∀ p, p ≠ .done → (y.dhcpAt p).MaySend y.sched.current := fun p hp =>
    .inr (.inl ⟨hcurrent, hp⟩)
  cases hpoint : y.dhcp.point with
  | entry =>
    have hnot : y.dhcp.point ≠ .done := by rw [hpoint]; simp
    simp only [dhcpStep, hpoint] at hstep
    split_ifs at hstep with hready
    · exact absurd (h.ready hready.1) hnot
    · cases hstep
      exact h.client hcurrent hnot rfl .inl rfl
  | discover =>
    simp only [dhcpStep, hpoint] at hstep
    exact (hat .discovered (by simp [hpoint])).sendUdp (hmay _ (by simp)) hstep
  | discovered =>
    simp only [dhcpStep, hpoint] at hstep
    exact (hat _ (by simp [hpoint])).call hstep fun hk => by cases hk
  | offer n =>
    have hnot : y.dhcp.point ≠ .done := by simp [hpoint]
    simp only [dhcpStep, hpoint] at hstep
    split at hstep
    · split_ifs at hstep
      · cases hstep
        exact h.client hcurrent hnot rfl .inl rfl
      · cases hstep
        exact hat .discover hnot
    · cases hstep
  | request =>
    simp only [dhcpStep, hpoint] at hstep
    exact (hat .requested (by simp [hpoint])).sendUdp (hmay _ (by simp)) hstep
  | requested =>
    simp only [dhcpStep, hpoint] at hstep
    exact (hat _ (by simp [hpoint])).call hstep fun hk => by cases hk
  | ack n =>
    have hnot : y.dhcp.point ≠ .done := by simp [hpoint]
    simp only [dhcpStep, hpoint] at hstep
    split at hstep
    · split_ifs at hstep
      · refine SenderInv.call hstep (h.client hcurrent hnot rfl (fun _ => .inr rfl) rfl) fun hk => ?_
        exact absurd (Sched.Label.wait.inj hk) (by decide)
      · cases hstep
        exact hat .request hnot
    · cases hstep
  | done =>
    simp only [dhcpStep, hpoint] at hstep
    cases hstep

theorem judgeStep_senderInv {op : JudgeOp} (h : SenderInv y) (hcurrent : y.sched.current = judgeTask)
    (hstep : y.judgeStep op = some y') : SenderInv y' := by
  unfold judgeStep at hstep
  split_ifs at hstep with hjudging hready
  · cases op with
    | schedYield => exact h.call hstep fun hk => by cases hk
    | sendUdp => exact h.sendUdp (.inr (.inr ⟨hcurrent, hjudging⟩)) hstep
    | recvUdp => exact h.call hstep fun hk => by cases hk
  · cases hstep
    refine h.stay rfl h.ready (fun _ => h.ready hready.1) fun t ht hmay => ?_
    obtain hip | hdhcp | ⟨ht', -⟩ := hmay
    · exact .inl hip
    · exact .inr (.inl hdhcp)
    · exact .inr (.inr ⟨ht', rfl⟩)
  · exact h.call hstep fun hk => by cases hk

theorem ipStep_senderInv (h : SenderInv y) (hcurrent : y.sched.current = iptaskTask)
    (hstep : y.ipStep = some y') : SenderInv y' := by
  have hready : y.handled.net.ipReady = y.net.ipReady :=
    (handleFrame_outcome y.net ⟨y.nic.lastRecvLen, y.dmaBuff⟩).ipReady
  have hhandled : SenderInv { y with net := y.handled.net, ip := .top } := h.same rfl hready rfl rfl
  unfold ipStep at hstep
  split at hstep
  · refine SenderInv.call hstep (h.same rfl rfl rfl rfl) fun hk => ?_
    exact absurd (Sched.Label.wait.inj hk) (by decide)
  · dsimp only at hstep
    split at hstep
    · exact hhandled.transmit (.inl hcurrent) hstep
    · exact hhandled.call hstep fun hk => by cases hk
    · cases hstep
      exact hhandled

theorem step_senderInv (h : SenderInv y) (hstep : y.step l = some y') : SenderInv y' := by
  cases l with
  | tick cycles => exact h.call hstep fun hk => by cases hk
  | idle tty =>
    simp only [step] at hstep
    split_ifs at hstep
    unfold idleStep at hstep
    split at hstep
    all_goals exact h.call hstep fun hk => by cases hk
  | ip =>
    simp only [step] at hstep
    split_ifs at hstep with hcurrent
    exact ipStep_senderInv h hcurrent hstep
  | dhcp =>
    simp only [step] at hstep
    split_ifs at hstep with hcurrent
    exact dhcpStep_senderInv h hcurrent hstep
  | judge op =>
    simp only [step] at hstep
    split_ifs at hstep with hcurrent
    exact judgeStep_senderInv h hcurrent hstep
  | sent =>
    obtain ⟨d, -, rfl⟩ := Option.map_eq_some_iff.mp hstep
    exact h.same rfl rfl rfl rfl
  | received frame =>
    obtain ⟨cap, -, hstep⟩ := Option.bind_eq_some_iff.mp hstep
    split_ifs at hstep
    cases hstep
    exact h.same rfl rfl rfl rfl

/-! ## The steps that send -/

/-- The IP task comes to a frame that asks for an answer, the DHCP client to one of its two calls
of `send_udp`, or the judge calls it with a datagram that fits. -/
def Sends (y : Host) : Label → Prop
  | .ip => y.sched.current = iptaskTask ∧ y.ip = .recv ∧
      ToMe y.net ⟨y.nic.lastRecvLen, y.dmaBuff⟩ ∧ Asks y.net ⟨y.nic.lastRecvLen, y.dmaBuff⟩
  | .dhcp => y.sched.current = dhcpTask ∧ (y.dhcp.point = .discover ∨ y.dhcp.point = .request)
  | .judge (.sendUdp _ _ _ payload) => y.sched.current = judgeTask ∧ y.judging = true ∧
      16 + 20 + 8 + payload.length ≤ 4096
  | _ => False

theorem call_handed {k : Sched.Label} (h : y.call k = some y') : y'.handed = y.handed := by
  obtain ⟨s, -, rfl⟩ := Option.map_eq_some_iff.mp h
  rfl

/-- A task other than idle hands its frame over. -/
theorem transmit_hands (y : Host) (b : Buffer) (frame : List Byte) (hcurrent : y.sched.current ≠ idleTask) :
    ∃ y', y.transmit b frame = some y' ∧ y'.handed ≠ y.handed := by
  have hsched : (y.beginSendFrame b frame).sched = y.sched := (beginSendFrame_eq y b frame).1
  have hstep : (y.beginSendFrame b frame).sched.step (.wait waitEthSend) =
      some ((y.beginSendFrame b frame).sched.wait waitEthSend) := if_neg (hsched ▸ hcurrent)
  refine ⟨_, congrArg (Option.map _) hstep, ?_⟩
  show y.handed ++ [frame] ≠ y.handed
  simp

theorem sendUdp_hands_iff (y : Host) (sport dport : Port) (daddr : Ipv6Addr) (payload : List Byte)
    (hcurrent : y.sched.current ≠ idleTask) :
    (∃ y', y.sendUdp sport daddr dport payload = some y' ∧ y'.handed ≠ y.handed) ↔
      16 + 20 + 8 + payload.length ≤ 4096 := by
  rw [← sendUdp_sends y.net y.udpBuff sport daddr dport payload]
  unfold Host.sendUdp
  cases (VijosOS.sendUdp y.net y.udpBuff sport daddr dport payload).sent with
  | cons b rest => exact ⟨fun _ => List.cons_ne_nil _ _, fun _ => transmit_hands y .udpBuff b hcurrent⟩
  | nil =>
    refine iff_of_false ?_ (not_not_intro rfl)
    rintro ⟨y', hy', hne⟩
    cases hy'
    exact hne rfl

theorem dhcpReq_fits (mac : Mac) (xid : BitVec 32) {options : List Byte} (h : options.length ≤ 10) :
    16 + 20 + 8 + (dhcpReq mac xid options).length ≤ 4096 := by
  simp only [dhcpReq, List.length_append, leBytes_length, List.length_replicate]
  omega

theorem not_hands (hsame : ∀ y', y.step l = some y' → y'.handed = y.handed) : ¬ y.Hands l := by
  rintro ⟨y', hy', hne⟩
  exact hne (hsame y' hy')

theorem ip_hands (hcurrent : y.sched.current = iptaskTask) (hip : y.ip = .recv) :
    y.Hands .ip ↔ y.handled.sent ≠ [] := by
  have hidle : y.sched.current ≠ idleTask := by
    rw [hcurrent]
    decide
  have hstep : y.step .ip = y.ipStep := if_pos hcurrent
  unfold Hands
  rw [hstep, ipStep, hip]
  dsimp only
  cases hsent : y.handled.sent with
  | cons b rest =>
    refine ⟨fun _ => List.cons_ne_nil _ _, fun _ => ?_⟩
    exact transmit_hands { y with net := y.handled.net, ip := .top } .dmaBuff b hidle
  | nil =>
    refine iff_of_false ?_ (not_not_intro rfl)
    rintro ⟨y', hy', hne⟩
    cases hdispatched : y.handled.dispatched with
    | cons d rest =>
      rw [hdispatched] at hy'
      exact absurd (call_handed hy') hne
    | nil =>
      rw [hdispatched] at hy'
      cases hy'
      exact hne rfl

/-- The DHCP client hands over its two packets, which always fit. -/
theorem dhcp_hands (hcurrent : y.sched.current = dhcpTask) :
    y.Hands .dhcp ↔ y.dhcp.point = .discover ∨ y.dhcp.point = .request := by
  have hidle : y.sched.current ≠ idleTask := by
    rw [hcurrent]
    decide
  have hstep : y.step .dhcp = y.dhcpStep := if_pos hcurrent
  unfold Hands
  rw [hstep, dhcpStep]
  cases hpoint : y.dhcp.point with
  | discover =>
    refine iff_of_true ?_ (.inl rfl)
    exact (sendUdp_hands_iff (y.dhcpAt .discovered) _ _ _ _ hidle).mpr (dhcpReq_fits _ _ (by decide))
  | request =>
    refine iff_of_true ?_ (.inr rfl)
    refine (sendUdp_hands_iff (y.dhcpAt .requested) _ _ _ _ hidle).mpr (dhcpReq_fits _ _ ?_)
    simp [leBytes_length]
  | entry =>
    refine iff_of_false ?_ (by simp)
    rintro ⟨y', hy', hne⟩
    dsimp only at hy'
    split_ifs at hy'
    · exact absurd (call_handed hy') hne
    · cases hy'
      exact hne rfl
  | discovered | requested =>
    refine iff_of_false ?_ (by simp)
    rintro ⟨y', hy', hne⟩
    exact absurd (call_handed hy') hne
  | offer n | ack n =>
    refine iff_of_false ?_ (by simp)
    rintro ⟨y', hy', hne⟩
    dsimp only at hy'
    split at hy'
    · split_ifs at hy'
      all_goals first
        | exact absurd (call_handed hy') hne
        | (cases hy'; exact hne rfl)
    · cases hy'
  | done =>
    refine iff_of_false ?_ (by simp)
    rintro ⟨y', hy', hne⟩
    cases hy'

theorem judge_hands {op : JudgeOp} (hcurrent : y.sched.current = judgeTask) :
    y.Hands (.judge op) ↔ y.Sends (.judge op) := by
  have hidle : y.sched.current ≠ idleTask := by
    rw [hcurrent]
    decide
  have hstep : y.step (.judge op) = y.judgeStep op := if_pos hcurrent
  unfold Hands
  rw [hstep]
  unfold judgeStep
  by_cases hjudging : y.judging = true
  · rw [if_pos hjudging]
    cases op with
    | sendUdp sport daddr dport payload =>
      dsimp only
      rw [sendUdp_hands_iff y sport dport daddr payload hidle]
      exact ⟨fun h => ⟨hcurrent, hjudging, h⟩, fun h => h.2.2⟩
    | schedYield | recvUdp =>
      refine iff_of_false ?_ not_false
      rintro ⟨y', hy', hne⟩
      exact absurd (call_handed hy') hne
  · rw [if_neg hjudging]
    refine iff_of_false ?_ fun h => ?_
    · rintro ⟨y', hy', hne⟩
      split_ifs at hy'
      · cases hy'
        exact hne rfl
      · exact absurd (call_handed hy') hne
    · cases op with
      | sendUdp => exact hjudging h.2.1
      | schedYield | recvUdp => exact h

/-- A step hands a frame over exactly when it is one of those that send. -/
theorem hands_iff : y.Hands l ↔ y.Sends l := by
  cases l with
  | tick cycles => exact iff_of_false (not_hands fun _ hy' => call_handed hy') not_false
  | idle tty =>
    refine iff_of_false (not_hands fun y' hy' => ?_) not_false
    simp only [step] at hy'
    split_ifs at hy'
    unfold idleStep at hy'
    split at hy'
    all_goals exact call_handed hy'
  | ip =>
    by_cases hcurrent : y.sched.current = iptaskTask
    · cases hip : y.ip with
      | top =>
        refine iff_of_false (not_hands fun y' hy' => ?_) fun h => absurd (hip.symm.trans h.2.1) (by simp)
        simp only [step, if_pos hcurrent, ipStep, hip] at hy'
        have hkept := call_handed hy'
        exact hkept
      | recv =>
        have hlen : y.nic.lastRecvLen < 2 ^ 16 := Nat.mod_lt _ (by decide)
        rw [ip_hands hcurrent hip, handled, handleFrame_sends hlen]
        exact ⟨fun h => ⟨hcurrent, hip, h⟩, fun h => h.2.2⟩
    · refine iff_of_false (not_hands fun y' hy' => ?_) fun h => hcurrent h.1
      simp only [step, if_neg hcurrent] at hy'
      cases hy'
  | dhcp =>
    by_cases hcurrent : y.sched.current = dhcpTask
    · rw [dhcp_hands hcurrent]
      exact (and_iff_right hcurrent).symm
    · refine iff_of_false (not_hands fun y' hy' => ?_) fun h => hcurrent h.1
      simp only [step, if_neg hcurrent] at hy'
      cases hy'
  | judge op =>
    by_cases hcurrent : y.sched.current = judgeTask
    · exact judge_hands hcurrent
    · refine iff_of_false (not_hands fun y' hy' => ?_) fun h => ?_
      · simp only [step, if_neg hcurrent] at hy'
        cases hy'
      · cases op with
        | sendUdp => exact hcurrent h.1
        | schedYield | recvUdp => exact h
  | sent =>
    refine iff_of_false (not_hands fun y' hy' => ?_) not_false
    obtain ⟨d, -, rfl⟩ := Option.map_eq_some_iff.mp hy'
    rfl
  | received frame =>
    refine iff_of_false (not_hands fun y' hy' => ?_) not_false
    obtain ⟨cap, -, hy'⟩ := Option.bind_eq_some_iff.mp hy'
    split_ifs at hy'
    cases hy'
    rfl

/-! ## Which tasks may overlap -/

/-- Task `t` waits for the driver, and `eth_poll_send` says that the device is not done. -/
def Sending (y : Host) (t : Nat) : Prop :=
  (y.sched.tasks t).point = .inWait waitEthSend ∧ y.nic.pollSend = false

/-- The IP task does not come to a frame that asks for an answer while the DHCP client or the
judge is sending, and neither of them sends a datagram while the IP task is sending. -/
def Apart (y : Host) : Label → Prop
  | .ip => y.Sends .ip → ¬ y.Sending dhcpTask ∧ ¬ y.Sending judgeTask
  | l => y.Sends l → ¬ y.Sending iptaskTask

theorem SenderInv.client_not_judge (h : SenderInv y) {p : DhcpPoint} (hp : p ≠ .done)
    (hpoint : y.dhcp.point = p) : y.judging ≠ true := by
  intro hjudging
  exact hp (hpoint.symm.trans (h.started hjudging))

/-- Other pairs of senders do not overlap, nor does a task with itself. -/
theorem apart_iff_guarded (h : SenderInv y) : y.Apart l ↔ y.Guarded l := by
  have hrunning : ∀ t, (y.sched.tasks t).point = .inWait waitEthSend → t ≠ y.sched.current := by
    rintro t ht rfl
    rw [h.handOff.current] at ht
    cases ht
  constructor
  · intro hapart hhands
    have hsends := hands_iff.mp hhands
    by_cases hpoll : y.nic.pollSend = true
    · exact .inr hpoll
    refine .inl fun t ht => ?_
    have hsending : y.Sending t := ⟨ht, Bool.eq_false_iff.mpr hpoll⟩
    have hother := hrunning t ht
    cases l with
    | ip =>
      obtain ⟨hdhcp, hjudge⟩ := hapart hsends
      obtain rfl | ⟨rfl, -⟩ | ⟨rfl, -⟩ := h.waits t ht
      · exact hother hsends.1.symm
      · exact hdhcp hsending
      · exact hjudge hsending
    | dhcp =>
      obtain rfl | ⟨rfl, -⟩ | ⟨rfl, hjudging⟩ := h.waits t ht
      · exact hapart hsends hsending
      · exact hother hsends.1.symm
      · -- the judge has not started
        obtain hpoint | hpoint := hsends.2
        · exact h.client_not_judge (by simp) hpoint hjudging
        · exact h.client_not_judge (by simp) hpoint hjudging
    | judge op =>
      cases op with
      | sendUdp =>
        obtain rfl | ⟨rfl, hpoint⟩ | ⟨rfl, -⟩ := h.waits t ht
        · exact hapart hsends hsending
        · -- the client is done
          exact hpoint (h.started hsends.2.1)
        · exact hother hsends.1.symm
      | schedYield | recvUdp => exact hsends
    | tick | idle | sent | received => exact hsends
  · intro hguard
    have hnot : y.Sends l → ∀ t, ¬ y.Sending t := by
      rintro hsends t ⟨ht, hpoll⟩
      obtain hnobody | hdone := hguard (hands_iff.mpr hsends)
      · exact hnobody t ht
      · rw [hpoll] at hdone
        cases hdone
    cases l with
    | ip => exact fun hsends => ⟨hnot hsends _, hnot hsends _⟩
    | dhcp | judge | tick | idle | sent | received => exact fun hsends => hnot hsends _

/-! ## Every run -/

/-- What a run keeps as long as no two senders overlap. -/
structure TransmitInv (y : Host) : Prop where
  wire : WireInv y
  senders : SenderInv y

theorem apart_iff_exclusive (h : TransmitInv y) : y.Apart l ↔ y.Exclusive l :=
  (apart_iff_guarded h.senders).trans (guarded_iff_exclusive h.wire)

theorem step_transmitInv (h : TransmitInv y) (hapart : y.Apart l) (hstep : y.step l = some y') :
    TransmitInv y' :=
  ⟨(step_wireInv h.wire ((apart_iff_guarded h.senders).mp hapart) hstep).1, step_senderInv h.senders hstep⟩

/-- A run transmits every frame undisturbed and once if and only if no answer of the IP task
overlaps with a datagram of the DHCP client or of the judge. -/
theorem exclusive_iff_apart (ls : List Label) :
    AllSteps step Exclusive boot ls ↔ AllSteps step Apart boot ls := by
  have hboot : TransmitInv boot := ⟨boot_wireInv, boot_senderInv⟩
  exact (allSteps_congr (fun _ _ => apart_iff_exclusive) (fun _ _ _ => step_transmitInv) hboot).symm

/-- A broadcast ARP request for 0.0.0.0. -/
def smallArp : List Byte :=
  leBytes 6 0xffffffffffff ++ leBytes 6 0x010000000002 ++ leBytes 2 ethTypeArp ++ leBytes 2 arpHtypeEthernet ++
    leBytes 2 arpPtypeIpv4 ++ [6, 4] ++ leBytes 2 arpOpRequest ++ leBytes 6 0x010000000002 ++
    leBytes 4 0x4d01a8c0 ++ leBytes 6 0 ++ leBytes 4 0

/-- The request arrives while the first DISCOVER is being transmitted. -/
def smallOverlap : List Label :=
  List.replicate 8 (.idle false) ++ [.ip] ++ List.replicate 7 (.idle false) ++ [.dhcp, .dhcp] ++
    [.received smallArp] ++ List.replicate 3 (.idle false)

theorem exclusive_iff_apart_overlap : ∃ y y', runSteps step boot smallOverlap = some y ∧
    y.step .ip = some y' ∧ y.nic.tx = some (.udpBuff, 286) ∧ y'.nic.tx = some (.dmaBuff, 42) ∧
    y'.transmitted = [] ∧ ¬ AllSteps step Exclusive boot (smallOverlap ++ [.ip]) := by
  have hrun : (runSteps step boot smallOverlap).bind (fun y => (y.step .ip).map fun y' =>
      (y.nic.tx, y'.nic.tx, y'.transmitted)) =
      some (some (.udpBuff, 286), some (.dmaBuff, 42), []) := by
    decide +kernel
  obtain ⟨y, hy, hrest⟩ := Option.bind_eq_some_iff.mp hrun
  obtain ⟨y', hy', heq⟩ := Option.map_eq_some_iff.mp hrest
  simp only [Prod.mk.injEq] at heq
  obtain ⟨htx, htx', htransmitted⟩ := heq
  refine ⟨y, y', hy, hy', htx, htx', htransmitted, fun hall => ?_⟩
  obtain ⟨hundisturbed, -⟩ := hall.last hy y' hy'
  have hkeep := (hundisturbed (fun h => by cases h) .udpBuff 286 htx).2.1
  rw [htx'] at hkeep
  cases hkeep

end Host

end VijosOS
