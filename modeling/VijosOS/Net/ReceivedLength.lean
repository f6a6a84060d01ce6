import VijosOS.Net.Frame

/-!
# Received frames are parsed within their length

A handler reads only bytes below `meta.len`: on two buffers that agree there it has the
same effects, whatever stale bytes follow. Each handler is compared with itself on both
buffers, under the length test that guards it.
-/

namespace VijosOS

open Library

/-! ## Reads below the agreement -/

section Reads

variable {n a len : Nat} {m m' : Mem}

theorem loadMac_congr (h : AgreeUpTo n m m') (ha : a + 6 ≤ n) : loadMac m a = loadMac m' a := by
  rw [loadMac, loadMac, h.getLe ha]

theorem loadIpv4_congr (h : AgreeUpTo n m m') (ha : a + 4 ≤ n) : loadIpv4 m a = loadIpv4 m' a := by
  rw [loadIpv4, loadIpv4, h.getLe ha]

theorem loadIpv6_congr (h : AgreeUpTo n m m') (ha : a + 16 ≤ n) :
    loadIpv6 m a = loadIpv6 m' a := by
  have hlo : getLe m a 8 = getLe m' a 8 := h.getLe (by omega)
  have hhi : getLe m (a + 8) 8 = getLe m' (a + 8) 8 := h.getLe (by omega)
  rw [loadIpv6, loadIpv6, hlo, hhi]

theorem ipChecksumPartial_congr (h : AgreeUpTo n m m') (ha : a + len ≤ n) :
    ipChecksumPartial m a len = ipChecksumPartial m' a len := by
  rw [ipChecksumPartial_eq, ipChecksumPartial_eq, byteSum_congr fun i hi => h _ (by omega)]

theorem ipChecksum_congr (h : AgreeUpTo n m m') (ha : a + len ≤ n) :
    ipChecksum m a len = ipChecksum m' a len := by
  rw [ipChecksum, ipChecksum, ipChecksumPartial_congr h ha]

theorem ipv4L4Checksum_congr (h : AgreeUpTo n m m') (ha : a + 20 + len ≤ n) :
    ipv4L4Checksum m a len = ipv4L4Checksum m' a len := by
  have hproto : getLe m (a + 9) 1 = getLe m' (a + 9) 1 := h.getLe (by omega)
  unfold ipv4L4Checksum
  rw [ipChecksumPartial_congr h (a := a + 12) (by omega),
    ipChecksumPartial_congr h (a := a + 16) (by omega), hproto,
    ipChecksumPartial_congr h (a := a + 20) (by omega)]

theorem ipv6L4Checksum_congr (h : AgreeUpTo n m m')
    (ha : a + 40 + ntohs (getLe m (a + 4) 2) ≤ n) :
    ipv6L4Checksum m a = ipv6L4Checksum m' a := by
  have hlen : getLe m (a + 4) 2 = getLe m' (a + 4) 2 := h.getLe (by omega)
  have hnext : getLe m (a + 6) 1 = getLe m' (a + 6) 1 := h.getLe (by omega)
  rw [hlen] at ha
  unfold ipv6L4Checksum
  rw [ipChecksumPartial_congr h (by omega : a + 8 + 16 ≤ n),
    ipChecksumPartial_congr h (by omega : a + 24 + 16 ≤ n), hlen, hnext,
    ipChecksumPartial_congr h (by omega : a + 40 + ntohs (getLe m' (a + 4) 2) ≤ n)]

/-! ## Writes -/

theorem putLe_congr {k w v v' : Nat} (h : AgreeUpTo n m m') (hv : v = v')
    (hk : k ≤ n ∨ a ≤ n ∧ k ≤ a + w) : AgreeUpTo k (putLe m a w v) (putLe m' a w v') := by
  subst hv
  exact h.putLe v hk

theorem storeMac_congr {mac mac' : Mac} (h : AgreeUpTo n m m') (hmac : mac = mac') :
    AgreeUpTo n (storeMac m a mac) (storeMac m' a mac') :=
  putLe_congr h (by rw [hmac]) (.inl le_rfl)

theorem storeIpv4_congr {ip ip' : Ipv4Addr} (h : AgreeUpTo n m m') (hip : ip = ip') :
    AgreeUpTo n (storeIpv4 m a ip) (storeIpv4 m' a ip') :=
  putLe_congr h (by rw [hip]) (.inl le_rfl)

theorem writeBytes_congr {bs bs' : List Byte} (h : AgreeUpTo n m m') (hbs : bs = bs') :
    AgreeUpTo n (writeBytes m a bs) (writeBytes m' a bs') := by
  subst hbs
  exact h.writeBytes bs (.inl le_rfl)

theorem storeIpv6_congr {ip ip' : Ipv6Addr} (h : AgreeUpTo n m m') (hip : ip = ip') :
    AgreeUpTo n (storeIpv6 m a ip) (storeIpv6 m' a ip') :=
  writeBytes_congr h (by rw [hip])

theorem storeEthHeader_congr {dst src : Mac} {ethertype : Nat} (h : AgreeUpTo n m m') :
    AgreeUpTo n (storeEthHeader m dst src ethertype) (storeEthHeader m' dst src ethertype) :=
  putLe_congr (storeMac_congr (storeMac_congr h rfl) rfl) rfl (.inl le_rfl)

theorem send_congr {net : NetState} (h : AgreeUpTo n m m') (hlen : len ≤ n) :
    FrameResult.send net ⟨len, m⟩ = .send net ⟨len, m'⟩ := by
  have hbytes : bytesAt m 0 len = bytesAt m' 0 len := h.bytesAt (by omega)
  simp only [FrameResult.send, hbytes]

end Reads

/-! ## Handlers -/

section Handlers

variable (net : NetState) {n len : Nat} {m m' : Mem}

theorem handleArp_congr (h : AgreeUpTo n m m') :
    handleArp net ⟨n, m⟩ = handleArp net ⟨n, m'⟩ := by
  unfold handleArp
  by_cases hlen : n < 14 + 28
  · simp only [if_pos hlen]
  · have hsrcMac : loadMac m 22 = loadMac m' 22 := loadMac_congr h (by omega)
    have hsrcIp : loadIpv4 m 28 = loadIpv4 m' 28 := loadIpv4_congr h (by omega)
    have hdstIp : loadIpv4 m 38 = loadIpv4 m' 38 := loadIpv4_congr h (by omega)
    have hreply : ∀ net' : NetState, ∀ dst : Mac, ∀ ip : Ipv4Addr,
        FrameResult.send net' ⟨14 + 28, storeIpv4 (storeMac (storeIpv4 (storeMac
          (putLe (storeEthHeader m dst net'.ifinfo.mac ethTypeArp) 20 2 arpOpReply)
          22 net'.ifinfo.mac) 28 net'.ifinfo.ipv4) 32 dst) 38 ip⟩ =
        FrameResult.send net' ⟨14 + 28, storeIpv4 (storeMac (storeIpv4 (storeMac
          (putLe (storeEthHeader m' dst net'.ifinfo.mac ethTypeArp) 20 2 arpOpReply)
          22 net'.ifinfo.mac) 28 net'.ifinfo.ipv4) 32 dst) 38 ip⟩ := by
      intro net' dst ip
      refine send_congr (n := n) ?_ (by omega)
      refine storeIpv4_congr (storeMac_congr (storeIpv4_congr (storeMac_congr ?_ rfl) rfl) rfl) rfl
      exact putLe_congr (storeEthHeader_congr h) rfl (.inl le_rfl)
    simp (disch := omega) only [if_neg hlen, h.getLe, hsrcMac, hsrcIp, hdstIp, hreply]

theorem doIcmpv4Echo_congr (len : Nat) (h : AgreeUpTo n m m') (hhdr : 42 ≤ n)
    (hlen : wrap16 (14 + ntohs (getLe m 16 2)) ≤ n) :
    doIcmpv4Echo net ⟨len, m⟩ = doIcmpv4Echo net ⟨len, m'⟩ := by
  have hcode : getLe m 35 1 = getLe m' 35 1 := h.getLe (by omega)
  have htotal : getLe m 16 2 = getLe m' 16 2 := h.getLe (by omega)
  unfold doIcmpv4Echo
  -- One name for the buffer after each write, in both runs.
  extract_lets b₀ l b₁ b₂ b₃ dst b₄ b₅ b₆ b₇ b₈ sum sum₁ b₉
    c₀ l' c₁ c₂ c₃ dst' c₄ c₅ c₆ c₇ c₈ sum' sum₁' c₉
  by_cases hbad : getLe m' 35 1 ≠ 0
  · rw [if_pos (hcode ▸ hbad), if_pos hbad]
  · rw [if_neg (hcode ▸ hbad), if_neg hbad]
    have h₁ : AgreeUpTo n b₁ c₁ := writeBytes_congr h (h.bytesAt (by omega))
    have h₃ : AgreeUpTo n b₃ c₃ := putLe_congr (storeMac_congr h₁ rfl) rfl (.inl le_rfl)
    have hdst : dst = dst' := loadIpv4_congr h₃ (by omega)
    have h₄ : AgreeUpTo n b₄ c₄ := storeIpv4_congr h₃ (loadIpv4_congr h₃ (by omega))
    have h₅ : AgreeUpTo n b₅ c₅ := storeIpv4_congr h₄ (by rw [hdst])
    have h₆ : AgreeUpTo n b₆ c₆ := putLe_congr h₅ rfl (.inl le_rfl)
    have h₇ : AgreeUpTo n b₇ c₇ := putLe_congr h₆ (ipChecksum_congr h₆ (by omega)) (.inl le_rfl)
    have h₈ : AgreeUpTo n b₈ c₈ := putLe_congr h₇ rfl (.inl le_rfl)
    have hsum : sum = sum' := congrArg (0xffff - ·) (h₈.getLe (by omega))
    have h₉ : AgreeUpTo n b₉ c₉ := putLe_congr h₈ (by simp only [sum₁, sum₁', hsum]) (.inl le_rfl)
    have hlens : l = l' := congrArg (fun x => wrap16 (14 + ntohs x)) htotal
    rw [← hlens]
    exact send_congr h₉ hlen

theorem doIcmpv6Echo_congr (len : Nat) (h : AgreeUpTo n m m') (hhdr : 62 ≤ n)
    (hlen : wrap16 (14 + 40 + ntohs (getLe m 18 2)) ≤ n) :
    doIcmpv6Echo net ⟨len, m⟩ = doIcmpv6Echo net ⟨len, m'⟩ := by
  have hcode : getLe m 55 1 = getLe m' 55 1 := h.getLe (by omega)
  have hpayload : getLe m 18 2 = getLe m' 18 2 := h.getLe (by omega)
  unfold doIcmpv6Echo
  extract_lets b₀ l b₁ b₂ b₃ b₄ sum dst b₅ b₆ old sum₁ sum₂ b₇
    c₀ l' c₁ c₂ c₃ c₄ sum' dst' c₅ c₆ old' sum₁' sum₂' c₇
  by_cases hbad : getLe m' 55 1 ≠ 0
  · rw [if_pos (hcode ▸ hbad), if_pos hbad]
  · rw [if_neg (hcode ▸ hbad), if_neg hbad]
    have h₁ : AgreeUpTo n b₁ c₁ := writeBytes_congr h (h.bytesAt (by omega))
    have h₄ : AgreeUpTo n b₄ c₄ :=
      putLe_congr (putLe_congr (storeMac_congr h₁ rfl) rfl (.inl le_rfl)) rfl (.inl le_rfl)
    have hsum : sum = sum' := congrArg (0xffff - ·) (h₄.getLe (by omega))
    have hdst : dst = dst' := loadIpv6_congr h₄ (by omega)
    have h₅ : AgreeUpTo n b₅ c₅ := storeIpv6_congr h₄ (loadIpv6_congr h₄ (by omega))
    have h₆ : AgreeUpTo n b₆ c₆ := storeIpv6_congr h₅ (by rw [hdst])
    have hpart : ipChecksumPartial b₆ 22 16 = ipChecksumPartial c₆ 22 16 :=
      ipChecksumPartial_congr h₆ (by omega)
    have hsum₂ : sum₂ = sum₂' := by simp only [sum₂, sum₂', sum₁, sum₁', old, old', hsum, hdst, hpart]
    have h₇ : AgreeUpTo n b₇ c₇ := putLe_congr h₆ (by rw [hsum₂]) (.inl le_rfl)
    have hlens : l = l' := congrArg (fun x => wrap16 (14 + 40 + ntohs x)) hpayload
    rw [← hlens]
    exact send_congr h₇ hlen

theorem handleIcmpv4_congr (len : Nat) (h : AgreeUpTo n m m') (hlen : len ≤ n)
    (htotal : 14 + ntohs (getLe m 16 2) ≤ n) (hhdr : 20 ≤ ntohs (getLe m 16 2)) :
    handleIcmpv4 net ⟨len, m⟩ = handleIcmpv4 net ⟨len, m'⟩ := by
  unfold handleIcmpv4
  by_cases hshort : len < 14 + 20 + 8
  · simp only [if_pos hshort]
  · have hwrap : wrap16 (14 + ntohs (getLe m 16 2)) ≤ n := (Nat.mod_le _ _).trans htotal
    have hecho := doIcmpv4Echo_congr net len h (by omega) hwrap
    have hfield : getLe m 16 2 = getLe m' 16 2 := h.getLe (by omega)
    have htype : getLe m 34 1 = getLe m' 34 1 := h.getLe (by omega)
    have hlt := ntohs_lt (getLe m' 16 2)
    rw [hfield] at htotal hhdr
    have hsub := sub64_of_le (by omega) hhdr
    have hsum : ipChecksum m 34 (sub64 (ntohs (getLe m' 16 2)) 20) =
        ipChecksum m' 34 (sub64 (ntohs (getLe m' 16 2)) 20) := ipChecksum_congr h (by omega)
    simp only [if_neg hshort, hfield, hsum, htype, hecho]

theorem handleUdp_congr (len : Nat) (h : AgreeUpTo n m m') (saddr : Ipv6Addr) (udp : Nat) (hlen : udp + len ≤ n) :
    handleUdp net m saddr udp len = handleUdp net m' saddr udp len := by
  unfold handleUdp
  by_cases hshort : len < 8
  · simp only [if_pos hshort]
  · have hfield : getLe m (udp + 4) 2 = getLe m' (udp + 4) 2 := h.getLe (by omega)
    have hdport : getLe m (udp + 2) 2 = getLe m' (udp + 2) 2 := h.getLe (by omega)
    have hsport : getLe m udp 2 = getLe m' udp 2 := h.getLe (by omega)
    simp only [if_neg hshort, hfield, hdport, hsport]
    by_cases hlong : len < ntohs (getLe m' (udp + 4) 2)
    · simp only [if_pos hlong]
    · by_cases hsmall : ntohs (getLe m' (udp + 4) 2) < 8
      · simp only [if_pos hsmall]
      · have hbytes : bytesAt m (udp + 8) (ntohs (getLe m' (udp + 4) 2) - 8) =
            bytesAt m' (udp + 8) (ntohs (getLe m' (udp + 4) 2) - 8) := h.bytesAt (by omega)
        simp only [hbytes]

theorem handleIpv4_congr (h : AgreeUpTo n m m') :
    handleIpv4 net ⟨n, m⟩ = handleIpv4 net ⟨n, m'⟩ := by
  unfold handleIpv4
  by_cases hshort : n < 14 + 20
  · simp only [if_pos hshort]
  · have hsum : ipChecksum m 14 20 = ipChecksum m' 14 20 := ipChecksum_congr h (by omega)
    have htotal : getLe m 16 2 = getLe m' 16 2 := h.getLe (by omega)
    have hsrc : loadIpv4 m 26 = loadIpv4 m' 26 := loadIpv4_congr h (by omega)
    have hdst : loadIpv4 m 30 = loadIpv4 m' 30 := loadIpv4_congr h (by omega)
    have hversion : getLe m 14 1 = getLe m' 14 1 := h.getLe (by omega)
    have hnext : getLe m 23 1 = getLe m' 23 1 := h.getLe (by omega)
    simp only [if_neg hshort, hversion, hsum, hsrc, hdst, hnext, htotal]
    by_cases hlong : n < 14 + ntohs (getLe m' 16 2)
    · simp only [if_pos hlong]
    · by_cases hsmall : ntohs (getLe m' 16 2) < 20
      · simp only [if_pos hsmall]
      · have hwrap : wrap16 (14 + ntohs (getLe m' 16 2)) ≤ 14 + ntohs (getLe m' 16 2) := Nat.mod_le _ _
        have hicmp := handleIcmpv4_congr net (wrap16 (14 + ntohs (getLe m' 16 2))) h
          (by omega) (by rw [htotal]; omega) (by rw [htotal]; omega)
        -- With fewer than 8 bytes of payload the UDP checksum field is not read.
        by_cases htiny : ntohs (getLe m' 16 2) - 20 < 8
        · simp only [hicmp, if_pos htiny]
        · have hfield : getLe m 40 2 = getLe m' 40 2 := h.getLe (by omega)
          have hl4 : ipv4L4Checksum m 14 (ntohs (getLe m' 16 2) - 20) =
              ipv4L4Checksum m' 14 (ntohs (getLe m' 16 2) - 20) := ipv4L4Checksum_congr h (by omega)
          have hudp := handleUdp_congr net
            (wrap16 (14 + ntohs (getLe m' 16 2)) - (14 + 20)) h
            (ipv4Compatible (loadIpv4 m' 26)) 34 (by omega)
          simp only [hicmp, hfield, hl4, hudp]

theorem ndpOptionMac_congr (h : AgreeUpTo n m m') (adv : Bool) :
    ndpOptionMac ⟨n, m⟩ adv = ndpOptionMac ⟨n, m'⟩ adv := by
  unfold ndpOptionMac
  by_cases hlen : n ≥ 14 + 40 + 8 + 16 + 8
  · have hoptlen : getLe m 79 1 = getLe m' 79 1 := h.getLe (by omega)
    have hopttype : getLe m 78 1 = getLe m' 78 1 := h.getLe (by omega)
    have hmac : loadMac m 80 = loadMac m' 80 := loadMac_congr h (by omega)
    simp only [hoptlen, hopttype, hmac]
  · simp only [hlen, false_and, if_false]

/-- The builder writes every byte from the option on, so its frames agree to their end. -/
theorem ipMakeNdp_congr (len : Nat) (h : AgreeUpTo n m m') (hn : 78 ≤ n) (addr : Ipv6Addr) (mac : Mac)
    (adv unicast : Bool) (flags : Nat) :
    ∃ b b', ipMakeNdp net ⟨len, m⟩ 4096 addr mac adv unicast flags = .ok ⟨86, b⟩ ∧
      ipMakeNdp net ⟨len, m'⟩ 4096 addr mac adv unicast flags = .ok ⟨86, b'⟩ ∧ AgreeUpTo 86 b b' := by
  have hcap : ¬ 4096 < 16 + 40 + 8 + 16 + 8 := by decide
  unfold ipMakeNdp
  rw [if_neg hcap, if_neg hcap]
  extract_lets dstIp dstMac b₀ b₁ b₂ b₃ b₄ b₅ b₆ b₇ b₈ b₉ b₁₀ b₁₁ b₁₂ b₁₃ b₁₄
    c₀ c₁ c₂ c₃ c₄ c₅ c₆ c₇ c₈ c₉ c₁₀ c₁₁ c₁₂ c₁₃ c₁₄
  have h₄ : AgreeUpTo 78 b₄ c₄ := by
    refine putLe_congr (putLe_congr (putLe_congr ?_ rfl (.inl le_rfl)) rfl (.inl le_rfl)) rfl (.inl le_rfl)
    exact putLe_congr (storeEthHeader_congr (h.mono hn)) rfl (.inl le_rfl)
  have h₆ : AgreeUpTo 78 b₆ c₆ := storeIpv6_congr (storeIpv6_congr h₄ rfl) rfl
  have h₉ : AgreeUpTo 78 b₉ c₉ :=
    putLe_congr (putLe_congr (putLe_congr h₆ rfl (.inl le_rfl)) rfl (.inl le_rfl)) rfl (.inl le_rfl)
  have h₁₀ : AgreeUpTo 78 b₁₀ c₁₀ := storeIpv6_congr h₉ rfl
  have h₁₂ : AgreeUpTo 80 b₁₂ c₁₂ :=
    putLe_congr (putLe_congr (k := 79) h₁₀ rfl (.inr (by omega))) rfl (.inr (by omega))
  have h₁₃ : AgreeUpTo 86 b₁₃ c₁₃ := putLe_congr h₁₂ rfl (.inr (by omega))
  have hpayload : getLe b₁₃ 18 2 = htons (8 + 16 + 8) % 256 ^ 2 := by
    simp (disch := simp) only [b₁₃, b₁₂, b₁₁, b₁₀, b₉, b₈, b₇, b₆, b₅, b₄, b₃, b₂, storeMac, storeIpv6,
      getLe_putLe_disjoint, getLe_writeBytes_disjoint, getLe_putLe]
  have hsum : ipv6L4Checksum b₁₃ 14 = ipv6L4Checksum c₁₃ 14 :=
    ipv6L4Checksum_congr h₁₃ (by rw [hpayload]; decide)
  exact ⟨b₁₄, c₁₄, rfl, rfl, putLe_congr h₁₃ hsum (.inl le_rfl)⟩

/-- The end of `handleNdp`: the reply is sent if it could be built. -/
def sendReply (net : NetState) : Except Int Frame → FrameResult
  | .ok fr => .send net fr
  | .error _ => .drop net 0

theorem handleNdp_congr (h : AgreeUpTo n m m') :
    handleNdp net ⟨n, m⟩ = handleNdp net ⟨n, m'⟩ := by
  unfold handleNdp
  by_cases hshort : n < 14 + 40 + 8 + 16
  · simp only [if_pos hshort]
  · have hoption : ∀ adv, ndpOptionMac ⟨n, m⟩ adv = ndpOptionMac ⟨n, m'⟩ adv := ndpOptionMac_congr h
    have hsrcMac : loadMac m 6 = loadMac m' 6 := loadMac_congr h (by omega)
    have hsrcIp : loadIpv6 m 22 = loadIpv6 m' 22 := loadIpv6_congr h (by omega)
    have htarget : loadIpv6 m 62 = loadIpv6 m' 62 := loadIpv6_congr h (by omega)
    have hreply : ∀ (net' : NetState) (addr : Ipv6Addr) (mac : Mac) (unicast : Bool) (flags : Nat),
        sendReply net' (ipMakeNdp net' ⟨n, m⟩ 4096 addr mac true unicast flags) =
          sendReply net' (ipMakeNdp net' ⟨n, m'⟩ 4096 addr mac true unicast flags) := by
      intro net' addr mac unicast flags
      obtain ⟨b, b', hb, hb', hagree⟩ :=
        ipMakeNdp_congr net' n h (by omega) addr mac true unicast flags
      rw [hb, hb']
      exact send_congr hagree le_rfl
    simp (disch := omega) only [if_neg hshort, h.getLe, hoption, hsrcMac, hsrcIp, htarget]
    split_ifs
    all_goals first | with_reducible rfl | exact hreply _ _ _ _ _

theorem handleIcmpv6_congr (len : Nat) (h : AgreeUpTo n m m') (hlen : len ≤ n)
    (hpayload : 14 + 40 + ntohs (getLe m 18 2) ≤ n) :
    handleIcmpv6 net ⟨len, m⟩ = handleIcmpv6 net ⟨len, m'⟩ := by
  unfold handleIcmpv6
  by_cases hshort : len < 14 + 40 + 8
  · simp only [if_pos hshort]
  · have hwrap : wrap16 (14 + 40 + ntohs (getLe m 18 2)) ≤ n := (Nat.mod_le _ _).trans hpayload
    have hecho := doIcmpv6Echo_congr net len h (by omega) hwrap
    have hndp := handleNdp_congr net (h.mono hlen)
    have hsum : ipv6L4Checksum m 14 = ipv6L4Checksum m' 14 := ipv6L4Checksum_congr h hpayload
    have htype : getLe m 54 1 = getLe m' 54 1 := h.getLe (by omega)
    simp only [if_neg hshort, hsum, htype, hecho, hndp]

theorem handleIpv6_congr (h : AgreeUpTo n m m') :
    handleIpv6 net ⟨n, m⟩ = handleIpv6 net ⟨n, m'⟩ := by
  unfold handleIpv6
  by_cases hshort : n < 14 + 40
  · simp only [if_pos hshort]
  · have hversion : getLe m 14 1 = getLe m' 14 1 := h.getLe (by omega)
    have hpayload : getLe m 18 2 = getLe m' 18 2 := h.getLe (by omega)
    have hnext : getLe m 20 1 = getLe m' 20 1 := h.getLe (by omega)
    have hsrc : loadIpv6 m 22 = loadIpv6 m' 22 := loadIpv6_congr h (by omega)
    have hdst : loadIpv6 m 38 = loadIpv6 m' 38 := loadIpv6_congr h (by omega)
    simp only [if_neg hshort, hversion, hpayload, hnext, hsrc, hdst]
    by_cases hlong : n < 14 + 40 + ntohs (getLe m' 18 2)
    · simp only [if_pos hlong]
    · have hwrap : wrap16 (14 + 40 + ntohs (getLe m' 18 2)) ≤ 14 + 40 + ntohs (getLe m' 18 2) :=
        Nat.mod_le _ _
      have hicmp := handleIcmpv6_congr net (wrap16 (14 + 40 + ntohs (getLe m' 18 2))) h
        (by omega) (by rw [hpayload]; omega)
      have hsum : ipv6L4Checksum m 14 = ipv6L4Checksum m' 14 :=
        ipv6L4Checksum_congr h (by rw [hpayload]; omega)
      have hudp := handleUdp_congr net
        (wrap16 (14 + 40 + ntohs (getLe m' 18 2)) - (14 + 40)) h (loadIpv6 m' 22) 54 (by omega)
      simp only [hicmp, hsum, hudp]

/-- A frame too short for its Ethernet header has no effect. -/
theorem handleFrame_runt (hn : n < 14) : ∃ ret, handleFrame net ⟨n, m⟩ = .drop net ret := by
  have harp : handleArp net ⟨n, m⟩ = .drop net (-eOOB) := if_pos (by show n < 14 + 28; omega)
  have hipv4 : handleIpv4 net ⟨n, m⟩ = .drop net (-eOOB) := if_pos (by show n < 14 + 20; omega)
  have hipv6 : handleIpv6 net ⟨n, m⟩ = .drop net (-eOOB) := if_pos (by show n < 14 + 40; omega)
  unfold handleFrame
  rw [harp, hipv4, hipv6]
  dsimp only
  split_ifs
  all_goals exact ⟨_, rfl⟩

theorem handleFrame_congr (h : AgreeUpTo n m m') (hn : 14 ≤ n) :
    handleFrame net ⟨n, m⟩ = handleFrame net ⟨n, m'⟩ := by
  have hmulticast : getLe m 0 1 = getLe m' 0 1 := h.getLe (by omega)
  have hdst : bytesAt m 0 6 = bytesAt m' 0 6 := h.bytesAt (by omega)
  have htype : getLe m 12 2 = getLe m' 12 2 := h.getLe (by omega)
  unfold handleFrame
  simp only [hmulticast, hdst, htype, handleArp_congr net h, handleIpv4_congr net h,
    handleIpv6_congr net h]

end Handlers

/-! ## The receive buffer -/

/-- The same network state, frames sent and datagrams dispatched. -/
structure SameEffects (r r' : FrameResult) : Prop where
  net : r.net = r'.net
  sent : r.sent = r'.sent
  dispatched : r.dispatched = r'.dispatched

theorem handleFrame_sameEffects (net : NetState) {n : Nat} {m m' : Mem} (h : AgreeUpTo n m m') :
    SameEffects (handleFrame net ⟨n, m⟩) (handleFrame net ⟨n, m'⟩) := by
  by_cases hn : n < 14
  · obtain ⟨ret, hret⟩ := handleFrame_runt net (m := m) hn
    obtain ⟨ret', hret'⟩ := handleFrame_runt net (m := m') hn
    rw [hret, hret']
    exact ⟨rfl, rfl, rfl⟩
  · rw [handleFrame_congr net h (Nat.le_of_not_lt hn)]
    exact ⟨rfl, rfl, rfl⟩

def smallNet : NetState where
  ifinfo := ⟨0x564738291002, 0x0201a8c0, ⟨0x80fe, 2⟩, fun _ => ipv6AllNodes⟩
  ipReady := true
  serverIp := ipv4Compatible 0x3701a8c0
  serverMac := macBroadcast
  dhcpServerIp := ipv4Compatible 0x0101a8c0
  dhcpServerMac := macBroadcast

/-- An ARP request of the server for the address of `smallNet`, then stale bytes. -/
def smallArpRequest (stale : Byte) : Mem :=
  writeBytes (fun _ => stale) 0
    ([0xff, 0xff, 0xff, 0xff, 0xff, 0xff, 2, 1, 1, 1, 1, 1, 8, 6] ++
      [0, 1, 8, 0, 6, 4, 0, 1, 2, 1, 1, 1, 1, 1, 192, 168, 1, 55, 0, 0, 0, 0, 0, 0, 192, 168, 1, 2])

set_option maxRecDepth 4000 in
theorem handleFrame_sameEffects_small :
    (handleFrame smallNet ⟨42, smallArpRequest 0⟩).sent.length = 1 ∧
      SameEffects (handleFrame smallNet ⟨42, smallArpRequest 0⟩)
        (handleFrame smallNet ⟨42, smallArpRequest 0xff⟩) :=
  ⟨by decide, handleFrame_sameEffects smallNet (n := 42)
    (AgreeUpTo.writeBytes (n := 0) (fun _ hi => absurd hi (Nat.not_lt_zero _)) _
      (.inr ⟨le_rfl, by decide⟩))⟩

end VijosOS
