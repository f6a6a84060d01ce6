import VijosOS.Tftp.GetSafety

/-!
# The bounds of a download

`tftp_get_file` copies every block behind the one before it and never looks at the length of its
buffer. What it has copied is a function of the datagrams it was given, so it stays inside the
buffer exactly when the blocks they carry fit.
-/

namespace VijosOS

open Library

/-! ## The blocks in a list of datagrams -/

/-- The block of a data packet, as far as the receive buffer takes it. -/
def dataBlock (d : UdpDispatch) : Option (Nat × List Byte) :=
  if 4 ≤ d.payload.length ∧ payloadOpcode d.payload = tftpOpData then
    some (payloadSeq d.payload, (d.payload.take 1024).drop 4)
  else none

/-- The blocks from block `w` on, up to the first short one, the first timeout or the first
datagram that is not a data packet. -/
def blocksFrom (w : Nat) : List (Option UdpDispatch) → List (List Byte)
  | [] => []
  | none :: _ => []
  | some d :: ds =>
    match dataBlock d with
    | none => []
    | some (seq, block) =>
      if seq ≠ w then blocksFrom w ds
      else block :: if block.length < tftpChunkSize then [] else blocksFrom (wrap16 (w + 1)) ds

/-- The blocks of a file: the first datagram that is not empty has to carry block 1. -/
def downloaded : List (Option UdpDispatch) → List (List Byte)
  | [] => []
  | none :: ds => downloaded ds
  | some d :: ds =>
    if d.payload = [] then downloaded ds
    else
      match dataBlock d with
      | none => []
      | some (seq, block) =>
        if seq ≠ 1 then []
        else block :: if block.length < tftpChunkSize then [] else blocksFrom 2 ds

/-! ## A received datagram -/

theorem htons_payloadSeq (p : List Byte) : htons (payloadSeq p) = leNat ((p.drop 2).take 2) := by
  have hlt := leNat_lt ((p.drop 2).take 2)
  have hshort : ((p.drop 2).take 2).length ≤ 2 := List.length_take_le _ _
  have hbound : leNat ((p.drop 2).take 2) < 65536 :=
    Nat.lt_of_lt_of_le hlt (Nat.pow_le_pow_right (by decide) hshort)
  exact ntohs_htons hbound

theorem payload_packet {p : List Byte} (h : 4 ≤ p.length) :
    p = tftpPacket (payloadOpcode p) (payloadSeq p) (p.drop 4) := by
  have htake : leBytes 2 (leNat (p.take 2)) = p.take 2 := by
    have hbytes := leBytes_leNat (p.take 2)
    rwa [List.length_take, Nat.min_eq_left (by omega)] at hbytes
  have hmiddle : leBytes 2 (leNat ((p.drop 2).take 2)) = (p.drop 2).take 2 := by
    have hbytes := leBytes_leNat ((p.drop 2).take 2)
    rwa [List.length_take, List.length_drop, Nat.min_eq_left (by omega)] at hbytes
  have hdrop : p.drop 4 = (p.drop 2).drop 2 := by rw [List.drop_drop]
  rw [tftpPacket, payloadOpcode, htons_payloadSeq, htake, hmiddle, hdrop, List.take_append_drop,
    List.take_append_drop]

theorem recvInto_empty (m : Mem) {d : UdpDispatch} (h : d.payload = []) :
    (recvInto m 1024 (some d)).1 = 0 := by
  rw [recvInto, h]
  rfl

/-- What is left in the buffer when a data packet came in. -/
structure HoldsBlock (r : Nat × Mem) (seq : Nat) (block : List Byte) : Prop where
  size : r.1 = 4 + block.length
  check : tftpCheckResp r.2 r.1 tftpOpData = 0
  seq : getLe r.2 2 2 = htons seq
  block : bytesAt r.2 4 block.length = block

theorem recvInto_block (m : Mem) {d : UdpDispatch} {seq : Nat} {block : List Byte}
    (h : dataBlock d = some (seq, block)) :
    HoldsBlock (recvInto m 1024 (some d)) seq block ∧ seq < 65536 := by
  unfold dataBlock at h
  split_ifs at h with hdata
  obtain ⟨hlen, hopcode⟩ := hdata
  obtain ⟨rfl, rfl⟩ := Prod.mk.inj (Option.some.inj h)
  obtain ⟨hfour, hop, hseq⟩ := recvInto_header (m := m) (payload_packet hlen) (by rw [hopcode]; decide)
  rw [hopcode] at hop
  have hsize : (recvInto m 1024 (some d)).1 = 4 + ((d.payload.take 1024).drop 4).length := by
    show copyLen 1024 d.payload.length = _
    rw [List.length_drop, List.length_take]
    unfold copyLen
    split_ifs <;> omega
  have htake : d.payload.take (copyLen 1024 d.payload.length) = d.payload.take 1024 := by
    unfold copyLen
    split_ifs with hshort
    · rw [List.take_of_length_le (Nat.le_refl _), List.take_of_length_le (Nat.le_of_lt hshort)]
    · rfl
  refine ⟨⟨hsize, tftpCheckResp_of_header hfour hop (by decide), hseq, ?_⟩, ntohs_lt _⟩
  have hbytes := bytesAt_writeBytes_inside m 0 (a := 4) (n := ((d.payload.take 1024).drop 4).length)
    (d.payload.take 1024) (by rw [List.length_drop, List.length_take]; omega)
  rw [Nat.zero_add, List.take_of_length_le (Nat.le_refl _)] at hbytes
  show bytesAt (writeBytes m 0 (d.payload.take (copyLen 1024 d.payload.length))) 4 _ = _
  rw [htake]
  exact hbytes

theorem recvInto_other (m : Mem) {d : UdpDispatch} (h : dataBlock d = none) (hne : d.payload ≠ []) :
    (recvInto m 1024 (some d)).1 ≠ 0 ∧
      tftpCheckResp (recvInto m 1024 (some d)).2 (recvInto m 1024 (some d)).1 tftpOpData = -eBADPKT := by
  have hpos : 0 < d.payload.length := List.length_pos_of_ne_nil hne
  have hsize : (recvInto m 1024 (some d)).1 = min 1024 d.payload.length := by
    show copyLen 1024 d.payload.length = _
    unfold copyLen
    split_ifs <;> omega
  refine ⟨by omega, ?_⟩
  by_cases hlen : 4 ≤ d.payload.length
  · have hopcode : payloadOpcode d.payload ≠ tftpOpData := by
      intro hdata
      rw [dataBlock, if_pos ⟨hlen, hdata⟩] at h
      cases h
    have hlt : payloadOpcode d.payload < 65536 := by
      have hbound := leNat_lt (d.payload.take 2)
      rwa [List.length_take, Nat.min_eq_left (by omega)] at hbound
    obtain ⟨_, hop, _⟩ := recvInto_header (m := m) (payload_packet hlen) hlt
    unfold tftpCheckResp
    rw [hop, if_neg (by omega), if_pos hopcode]
    split_ifs <;> rfl
  · rw [tftpCheckResp, if_pos (by omega)]

/-- The block stays in the buffer while the opcode is rewritten. -/
theorem HoldsBlock.ack {r : Nat × Mem} {seq : Nat} {block : List Byte} (h : HoldsBlock r seq block) :
    getLe (putLe r.2 0 2 tftpOpAck) 2 2 = htons seq ∧
      bytesAt (putLe r.2 0 2 tftpOpAck) 4 block.length = block := by
  constructor
  · rw [getLe_putLe_disjoint _ _ _ _ _ _ (by omega), h.seq]
  · rw [putLe, bytesAt_writeBytes_disjoint _ _ _ _ _ (by rw [leBytes_length]; omega), h.block]

/-- The tests of the client let it pass. -/
theorem HoldsBlock.accepted {r : Nat × Mem} {seq : Nat} {block : List Byte} (h : HoldsBlock r seq block) :
    r.1 ≠ 0 ∧ ¬ tftpCheckResp r.2 r.1 tftpOpData < 0 ∧ r.1 - 4 = block.length := by
  have hsize := h.size
  refine ⟨by omega, ?_, by omega⟩
  rw [h.check]
  decide

/-! ## One call of `recv_udp` -/

namespace GetClient

variable {c : GetClient} {d : UdpDispatch} {seq : Nat} {block : List Byte}

theorem recvNext_other (h : dataBlock d = none) :
    ∃ m, (c.recvNext (some d)).1 = { c with tftpBuff := m, point := .returned (-eBADPKT) } := by
  refine ⟨(recvInto c.tftpBuff 1024 (some d)).2, ?_⟩
  by_cases hempty : d.payload = []
  · have hzero := recvInto_empty c.tftpBuff hempty
    unfold recvNext
    simp only [if_pos hzero]
    rfl
  · obtain ⟨hne, hcheck⟩ := recvInto_other c.tftpBuff h hempty
    have hneg : tftpCheckResp (recvInto c.tftpBuff 1024 (some d)).2
        (recvInto c.tftpBuff 1024 (some d)).1 tftpOpData < 0 := by
      rw [hcheck]
      decide
    unfold recvNext
    simp only [if_neg hne, if_pos hneg]
    rw [hcheck]
    rfl

theorem recvNext_block (c : GetClient) (h : dataBlock d = some (seq, block)) :
    ∃ m, bytesAt m 4 block.length = block ∧ (c.recvNext (some d)).1 =
      if seq ≠ c.window then { c with tftpBuff := m }
      else if block.length < tftpChunkSize then
        (GetClient.copyBlock { c with tftpBuff := m } block.length (some d)).finish
      else { GetClient.copyBlock { c with tftpBuff := m } block.length (some d) with
        window := wrap16 (c.window + 1) } := by
  obtain ⟨hr, hseq⟩ := recvInto_block c.tftpBuff h
  obtain ⟨hfield, hblock⟩ := hr.ack
  obtain ⟨hne, hcheck, hdata⟩ := hr.accepted
  refine ⟨putLe (recvInto c.tftpBuff 1024 (some d)).2 0 2 tftpOpAck, hblock, ?_⟩
  unfold recvNext
  simp only [if_neg hne, if_neg hcheck, hfield, ntohs_htons hseq, hdata]
  by_cases hwindow : seq = c.window
  · rw [if_pos hwindow, if_neg (not_not_intro hwindow)]
    split_ifs <;> rfl
  · rw [if_neg hwindow, if_pos hwindow]

theorem recvFirst_other (h : dataBlock d = none) (hne : d.payload ≠ []) :
    ∃ m p, (c.recvFirst (some d)).1 =
      { c with tftpBuff := m, serverPort := p, point := .returned (-eBADPKT) } := by
  obtain ⟨hret, hcheck⟩ := recvInto_other c.tftpBuff h hne
  have hneg : tftpCheckResp (recvInto c.tftpBuff 1024 (some d)).2
      (recvInto c.tftpBuff 1024 (some d)).1 tftpOpData < 0 := by
    rw [hcheck]
    decide
  refine ⟨(recvInto c.tftpBuff 1024 (some d)).2, d.sport, ?_⟩
  unfold recvFirst
  simp only [if_neg hret, if_pos hneg]
  rw [hcheck]
  rfl

theorem recvFirst_block (c : GetClient) (h : dataBlock d = some (seq, block)) :
    ∃ m, bytesAt m 4 block.length = block ∧ (c.recvFirst (some d)).1 =
      if seq ≠ 1 then
        { c with
          tftpBuff := (recvInto c.tftpBuff 1024 (some d)).2
          serverPort := d.sport
          point := .returned (-eBADPKT) }
      else
        let c' := GetClient.copyBlock { c with tftpBuff := m, serverPort := d.sport, totalLen := 0, offset := 0 }
          block.length (some d)
        if block.length < tftpChunkSize then c'.finish
        else { c' with window := 2, point := .transferring } := by
  obtain ⟨hr, hseq⟩ := recvInto_block c.tftpBuff h
  obtain ⟨_, hblock⟩ := hr.ack
  obtain ⟨hne, hcheck, hdata⟩ := hr.accepted
  have hone : htons seq = htons 1 ↔ seq = 1 := by
    refine ⟨fun heq => ?_, fun heq => congrArg htons heq⟩
    rw [← ntohs_htons hseq, heq]
    decide
  refine ⟨putLe (recvInto c.tftpBuff 1024 (some d)).2 0 2 tftpOpAck, hblock, ?_⟩
  unfold recvFirst
  simp only [if_neg hne, if_neg hcheck, hr.seq, hdata, ne_eq, hone]
  by_cases hfirst : seq = 1
  · simp only [if_neg (not_not_intro hfirst)]
    split_ifs <;> rfl
  · simp only [if_pos hfirst]
    rfl

/-! ## The whole run -/

/-- `tftp_get_file` after `recv_udp` returned the given datagrams, or timed out. -/
def run (c : GetClient) (ds : List (Option UdpDispatch)) : GetClient :=
  ds.foldl (fun c d => (c.recv d).1) c

theorem run_returned {r : Int} (h : c.point = .returned r) (ds : List (Option UdpDispatch)) :
    c.run ds = c := by
  induction ds with
  | nil => rfl
  | cons d ds ih =>
    have hsame : (c.recv d).1 = c := by rw [recv, h]
    show GetClient.run (c.recv d).1 ds = c
    rw [hsame, ih]

/-- `bs` was copied behind what was there, and is all there is when the call returned 0. -/
structure Copies (c c' : GetClient) (bs : List Byte) : Prop where
  buff : c'.buff = writeBytes c.buff c.offset bs
  outLen : c'.point = .returned 0 → c'.outLen = some (c.totalLen + bs.length)

theorem copyBlock_copies {m : Mem} {bs : List Byte} (hblock : bytesAt m 4 block.length = block)
    {c' : GetClient}
    (h : Copies (GetClient.copyBlock { c with tftpBuff := m } block.length (some d)) c' bs) :
    Copies c c' (block ++ bs) := by
  obtain ⟨hbuff, hout⟩ := h
  simp only [GetClient.copyBlock, hblock] at hbuff hout
  refine ⟨?_, fun hret => ?_⟩
  · rw [hbuff, writeBytes_append]
  · rw [hout hret, List.length_append, Nat.add_assoc]

theorem Copies.nothing {c' : GetClient} (hbuff : c'.buff = c.buff) (hpoint : c'.point ≠ .returned 0) :
    Copies c c' [] :=
  ⟨hbuff.trans (writeBytes_nil _ _).symm, fun hzero => absurd hzero hpoint⟩

/-- A failed call is over, and has copied nothing more. -/
theorem run_failed (c : GetClient) {c' : GetClient} {ds : List (Option UdpDispatch)} (hbuff : c'.buff = c.buff)
    (hpoint : c'.point = .returned (-eBADPKT)) : Copies c (c'.run ds) [] := by
  rw [run_returned hpoint]
  exact Copies.nothing hbuff (by rw [hpoint]; decide)

theorem run_transferring (hpoint : c.point = .transferring) (ds : List (Option UdpDispatch)) :
    Copies c (c.run ds) (blocksFrom c.window ds).flatten := by
  induction ds generalizing c with
  | nil => exact Copies.nothing rfl (by rw [run, List.foldl_nil, hpoint]; decide)
  | cons d ds ih =>
    have hrecv : ∀ d, (c.recv d).1 = (c.recvNext d).1 := fun d => by rw [recv, hpoint]
    show Copies c (GetClient.run (c.recv d).1 ds) (blocksFrom c.window (d :: ds)).flatten
    rw [hrecv d]
    cases d with
    | none =>
      rw [recvNext_none]
      exact run_failed c rfl rfl
    | some d =>
      cases hdata : dataBlock d with
      | none =>
        obtain ⟨m, hnext⟩ := recvNext_other (c := c) hdata
        rw [hnext, blocksFrom, hdata]
        exact run_failed c rfl rfl
      | some r =>
        obtain ⟨seq, block⟩ := r
        obtain ⟨m, hblock, hnext⟩ := recvNext_block c hdata
        rw [hnext, blocksFrom, hdata]
        dsimp only
        split_ifs with hseq hshort
        · obtain ⟨hbuff, hout⟩ := ih (c := { c with tftpBuff := m }) hpoint
          exact ⟨hbuff, hout⟩
        · rw [run_returned (r := 0) rfl, List.flatten_singleton]
          exact ⟨by simp only [finish, copyBlock, hblock], fun _ => rfl⟩
        · rw [List.flatten_cons]
          obtain ⟨hbuff, hout⟩ := ih (c := { GetClient.copyBlock { c with tftpBuff := m } block.length
            (some d) with window := wrap16 (c.window + 1) }) hpoint
          exact copyBlock_copies (d := d) hblock ⟨hbuff, hout⟩

theorem run_requesting (hpoint : c.point = .requesting) (hoffset : c.offset = 0) (htotal : c.totalLen = 0)
    (ds : List (Option UdpDispatch)) : Copies c (c.run ds) (downloaded ds).flatten := by
  induction ds generalizing c with
  | nil => exact Copies.nothing rfl (by rw [run, List.foldl_nil, hpoint]; decide)
  | cons d ds ih =>
    have hrecv : ∀ d, (c.recv d).1 = (c.recvFirst d).1 := fun d => by rw [recv, hpoint]
    show Copies c (GetClient.run (c.recv d).1 ds) (downloaded (d :: ds)).flatten
    rw [hrecv d]
    cases d with
    | none =>
      rw [recvFirst_none]
      exact ih hpoint hoffset htotal
    | some d =>
      rw [downloaded]
      by_cases hempty : d.payload = []
      · -- an empty datagram counts as a timeout
        have hzero := recvInto_empty c.tftpBuff hempty
        have hfirst : (c.recvFirst (some d)).1 =
            { c with tftpBuff := (recvInto c.tftpBuff 1024 (some d)).2, serverPort := d.sport } := by
          unfold recvFirst
          simp only [if_pos hzero]
          rfl
        rw [if_pos hempty, hfirst]
        obtain ⟨hbuff, hout⟩ := ih (c := { c with
          tftpBuff := (recvInto c.tftpBuff 1024 (some d)).2, serverPort := d.sport }) hpoint hoffset htotal
        exact ⟨hbuff, hout⟩
      · rw [if_neg hempty]
        cases hdata : dataBlock d with
        | none =>
          obtain ⟨m, p, hfirst⟩ := recvFirst_other (c := c) hdata hempty
          rw [hfirst]
          exact run_failed c rfl rfl
        | some r =>
          obtain ⟨seq, block⟩ := r
          obtain ⟨m, hblock, hfirst⟩ := recvFirst_block c hdata
          rw [hfirst]
          dsimp only
          split_ifs with hseq hshort
          · exact run_failed c rfl rfl
          · rw [run_returned (r := 0) rfl, List.flatten_singleton]
            refine ⟨?_, fun _ => ?_⟩
            · simp only [finish, copyBlock, hblock, hoffset]
            · simp only [finish, copyBlock, htotal]
          · rw [List.flatten_cons]
            have hrest := run_transferring (c := { GetClient.copyBlock { c with
              tftpBuff := m, serverPort := d.sport, totalLen := 0, offset := 0 } block.length (some d) with
              window := 2, point := .transferring }) rfl ds
            obtain ⟨hbuff, hout⟩ := hrest
            refine ⟨?_, fun hret => ?_⟩
            · rw [hbuff]
              simp only [copyBlock, hblock, hoffset, Nat.zero_add]
              rw [← writeBytes_append, Nat.zero_add]
            · rw [hout hret]
              simp only [copyBlock, htotal, List.length_append, Nat.zero_add]

end GetClient

/-! ## The buffer -/

/-- Whatever the buffer held, nothing at or beyond `len` is written, and the length reported is
at most `len`. -/
def StaysInside (len : Nat) (clientIp : Ipv6Addr) (clientPort : ClientPort) (filename : List Byte)
    (tftpReq tftpBuff : Mem) (ds : List (Option UdpDispatch)) : Prop :=
  ∀ buff c, c = ((tftpGetFile clientIp clientPort filename tftpReq tftpBuff buff).1).run ds →
    (∀ x, len ≤ x → c.buff x = buff x) ∧
      (c.point = .returned 0 → ∃ outLen ≤ len, c.outLen = some outLen)

/-- The blocks that arrive are copied to the start of the buffer, unless the name leaves no room
for the mode in the request. -/
theorem tftpGetFile_copies (clientIp : Ipv6Addr) (clientPort : ClientPort) (filename : List Byte)
    (tftpReq tftpBuff buff : Mem) (ds : List (Option UdpDispatch)) {c : GetClient}
    (h : c = ((tftpGetFile clientIp clientPort filename tftpReq tftpBuff buff).1).run ds) :
    c.buff = writeBytes buff 0 (if 119 < filename.length then [] else (downloaded ds).flatten) ∧
      (c.point = .returned 0 → filename.length ≤ 119 ∧ c.outLen = some (downloaded ds).flatten.length) := by
  subst h
  unfold tftpGetFile tftpBuildReq
  dsimp only
  by_cases hlong : 128 < 2 + (filename.length + 1) + 6
  · have hname : 119 < filename.length := by omega
    rw [if_pos hlong, if_pos hname, writeBytes_nil]
    dsimp only
    rw [GetClient.run_returned (r := -eOOB) rfl]
    refine ⟨rfl, fun hret => ?_⟩
    exact absurd (ClientPoint.returned.inj hret) (by decide)
  · have hname : ¬ 119 < filename.length := by omega
    rw [if_neg hlong, if_neg hname]
    dsimp only
    generalize writeBytes (writeBytes _ _ _) _ _ = m
    obtain ⟨hbuff, hout⟩ := GetClient.run_requesting
      (c := ⟨⟨clientIp, clientPort, 2 + (filename.length + 1) + 6, m, tftpBuff, 0, 0, 0, .requesting⟩,
        buff, 0, none, []⟩)
      rfl rfl rfl ds
    refine ⟨hbuff, fun hret => ⟨by omega, ?_⟩⟩
    rw [hout hret]
    simp only [Nat.zero_add]

/-- A download stays inside its buffer exactly when the blocks that arrive fit, or nothing is
requested because the name is too long. -/
theorem tftpGetFile_inside_iff (len : Nat) (clientIp : Ipv6Addr) (clientPort : ClientPort)
    (filename : List Byte) (tftpReq tftpBuff : Mem) (ds : List (Option UdpDispatch)) :
    StaysInside len clientIp clientPort filename tftpReq tftpBuff ds ↔
      119 < filename.length ∨ (downloaded ds).flatten.length ≤ len := by
  constructor
  · intro h
    by_contra hover
    obtain ⟨hname, hlen⟩ := not_or.mp hover
    -- a buffer whose byte at `len` differs from the one downloaded
    obtain ⟨hinside, _⟩ := h (fun _ => ~~~ (downloaded ds).flatten.getD len 0) _ rfl
    obtain ⟨hbuff, _⟩ := tftpGetFile_copies clientIp clientPort filename tftpReq tftpBuff
      (fun _ => ~~~ (downloaded ds).flatten.getD len 0) ds rfl
    have hsame := hinside len (Nat.le_refl len)
    have hwritten := writeBytes_add (fun _ => ~~~ (downloaded ds).flatten.getD len 0) 0
      (downloaded ds).flatten (Nat.not_le.mp hlen)
    rw [Nat.zero_add] at hwritten
    rw [hbuff, if_neg hname, hwritten] at hsame
    exact BitVec.ne_not_self (by decide) hsame
  · rintro h buff c hc
    obtain ⟨hbuff, hout⟩ := tftpGetFile_copies clientIp clientPort filename tftpReq tftpBuff buff ds hc
    constructor
    · intro x hx
      rw [hbuff]
      apply writeBytes_outside
      split_ifs with hname
      · simp
      · have hfit := h.resolve_left hname
        omega
    · intro hret
      obtain ⟨hname, hlen⟩ := hout hret
      exact ⟨_, h.resolve_left (by omega), hlen⟩

/-- A full block of zeros. -/
def zeroBlock (k : Nat) : UdpDispatch :=
  ⟨50000, tftpServerIp, 4000, tftpPacket tftpOpData k (List.replicate 512 0)⟩

theorem dataBlock_zeroBlock {k : Nat} (hk : k < 65536) :
    dataBlock (zeroBlock k) = some (k, List.replicate 512 0) := by
  have hdrop : ((tftpPacket tftpOpData k (List.replicate 512 0)).take 1024).drop 4 = List.replicate 512 0 := by
    rw [List.take_of_length_le (by rw [tftpPacket_length, List.length_replicate]; decide), tftpPacket,
      ← List.append_assoc]
    exact List.drop_left' (by rw [List.length_append, leBytes_length, leBytes_length])
  have hlen : 4 ≤ (zeroBlock k).payload.length := by
    rw [zeroBlock, tftpPacket_length]
    omega
  rw [dataBlock, if_pos ⟨hlen, payloadOpcode_tftpPacket (by decide) _ _⟩]
  rw [zeroBlock, payloadSeq_tftpPacket _ hk, hdrop]

theorem blocksFrom_zeroBlocks {w n : Nat} (h : w + n < 65536) :
    (blocksFrom w ((List.range' w n).map fun k => some (zeroBlock k))).flatten =
      List.replicate (512 * n) 0 := by
  induction n generalizing w with
  | zero => rfl
  | succ n ih =>
    have hnext : wrap16 (w + 1) = w + 1 := Nat.mod_eq_of_lt (by omega)
    have hfull : ¬ (List.replicate 512 (0 : Byte)).length < tftpChunkSize := by
      rw [List.length_replicate]
      decide
    rw [List.range'_succ, List.map_cons, blocksFrom, dataBlock_zeroBlock (by omega)]
    dsimp only
    rw [if_neg (not_not_intro rfl), if_neg hfull, hnext, List.flatten_cons, ih (by omega),
      List.replicate_append_replicate]
    congr 1
    omega

/-- A file of 8193 full blocks does not fit the 4 MiB that `do_judge` offers. -/
theorem tftpGetFile_inside_not_always :
    ¬ ∀ len clientIp clientPort filename tftpReq tftpBuff ds,
      StaysInside len clientIp clientPort filename tftpReq tftpBuff ds := by
  intro h
  have hfirst : (downloaded ((List.range' 1 8193).map fun k => some (zeroBlock k))).flatten =
      List.replicate (512 * 8193) 0 := by
    have hfull : ¬ (List.replicate 512 (0 : Byte)).length < tftpChunkSize := by
      rw [List.length_replicate]
      decide
    have hne : (zeroBlock 1).payload ≠ [] := by
      intro hnil
      have hlen := congrArg List.length hnil
      rw [zeroBlock, tftpPacket_length, List.length_nil] at hlen
      omega
    rw [List.range'_succ, List.map_cons, downloaded, if_neg hne, dataBlock_zeroBlock (by decide)]
    dsimp only
    rw [if_neg (not_not_intro rfl), if_neg hfull, List.flatten_cons, blocksFrom_zeroBlocks (by decide),
      List.replicate_append_replicate]
  obtain ⟨hinside, _⟩ := h 0x400000 ipv6Unspecified ⟨50000, by decide⟩ [0x65, 0x6c, 0x66] (fun _ => 0)
    (fun _ => 0) ((List.range' 1 8193).map fun k => some (zeroBlock k)) (fun _ => 1) _ rfl
  obtain ⟨hbuff, _⟩ := tftpGetFile_copies ipv6Unspecified ⟨50000, by decide⟩ [0x65, 0x6c, 0x66]
    (fun _ => 0) (fun _ => 0) (fun _ => 1) ((List.range' 1 8193).map fun k => some (zeroBlock k)) rfl
  have hsame := hinside 0x400000 (Nat.le_refl _)
  have hwritten := writeBytes_add (fun _ => 1) 0 (List.replicate (512 * 8193) 0)
    (show 0x400000 < (List.replicate (512 * 8193) (0 : Byte)).length by rw [List.length_replicate]; decide)
  rw [Nat.zero_add, List.getD_replicate 0 (by decide)] at hwritten
  rw [hbuff, if_neg (by decide), hfirst, hwritten] at hsame
  exact absurd hsame (by decide)

end VijosOS
