import VijosOS.Dhcp.Client
import VijosOS.Library.Layout

/-!
# A DHCP server

The other side of `dhcp.c`: a server that keeps an address for each hardware address. It searches
the options of a packet; the client looks for the type of a reply in the first option only.
-/

namespace VijosOS

open Library

/-! ## What the server reads -/

/-- The value of an option, from what is left of the options and at most `n` of them. -/
def dhcpOption (tag : Byte) : Nat → List Byte → Option (List Byte)
  | 0, _ | _, [] => none
  | n + 1, t :: rest =>
    if t = 0 then dhcpOption tag n rest
    else if t = BitVec.ofNat 8 dhcpOptionEnd then none
    else
      match rest with
      | [] => none
      | len :: rest =>
        if t = tag then some (rest.take len.toNat) else dhcpOption tag n (rest.drop len.toNat)

structure DhcpQuery where
  xid : Nat
  chaddr : Nat
  type : Nat
  reqAddr : Option Nat

def dhcpQuery (payload : List Byte) : Option DhcpQuery :=
  let m := writeBytes (fun _ => 0) 0 payload
  let options := payload.drop 240
  if getLe m 0 1 = dhcpOpRequest ∧ getLe m 1 1 = dhcpHtype ∧ getLe m 2 1 = dhcpHlen ∧
      getLe m 236 4 = dhcpMagicCookie then
    (dhcpOption (BitVec.ofNat 8 dhcpOptionMessageType) options.length options).map fun type =>
      ⟨getLe m 4 4, getLe m 28 6, leNat type,
        (dhcpOption (BitVec.ofNat 8 dhcpOptionReqAddr) options.length options).map leNat⟩
  else none

/-! ## What it answers -/

def dhcpMessageTypeNak : Nat := 0x06

/-- The fields of `dhcp_packet_t`. -/
def dhcpFields (op xid : Nat) (yiaddr siaddr : Ipv4Addr) (chaddr : Nat) : List (Nat × Nat) :=
  [(1, op), (1, dhcpHtype), (1, dhcpHlen), (1, 0), (4, xid), (2, 0), (2, 0), (4, 0), (4, yiaddr.toNat),
    (4, siaddr.toNat), (4, 0), (6, chaddr), (202, 0), (4, dhcpMagicCookie)]

structure DhcpServer where
  mac : Mac
  addr : Ipv4Addr
  lease : Nat → Ipv4Addr
  options : List Byte
  mac_ne : mac ≠ macBroadcast
  addr_ne : addr ≠ ipv4Unspecified

namespace DhcpServer

variable (srv : DhcpServer)

def reply (type xid chaddr : Nat) (yiaddr : Ipv4Addr) : List Byte :=
  layout (dhcpFields dhcpOpReply xid yiaddr srv.addr chaddr ++
    [(1, dhcpOptionMessageType), (1, 1), (1, type)]) ++ (srv.options ++ leBytes 1 dhcpOptionEnd)

/-- The type and the address of the answer. -/
def answer (q : DhcpQuery) : Option (Nat × Ipv4Addr) :=
  if q.type = dhcpMessageTypeDiscover then some (dhcpMessageTypeOffer, srv.lease q.chaddr)
  else if q.type = dhcpMessageTypeRequest then
    if q.reqAddr = some (srv.lease q.chaddr).toNat then some (dhcpMessageTypeAck, srv.lease q.chaddr)
    else some (dhcpMessageTypeNak, 0)
  else none

end DhcpServer

/-! ## The formats agree -/

section Formats

variable (mac : Mac) (xid : BitVec 32) (ip : Ipv4Addr)

/-- `chaddr` has the low six bytes of the word. -/
def chaddrOf (mac : Mac) : Nat := mac.toNat % 256 ^ 6

theorem dhcpFields_widths (op xid : Nat) (yiaddr siaddr : Ipv4Addr) (chaddr : Nat) :
    widths (dhcpFields op xid yiaddr siaddr chaddr) = 240 := by
  simp [widths, dhcpFields]

/-- What is read at the offsets of the struct. -/
theorem dhcpFields_read (m : Mem) (rest : List Byte) (op xid : Nat) (yiaddr siaddr : Ipv4Addr) (chaddr : Nat) :
    let packet := writeBytes m 0 (layout (dhcpFields op xid yiaddr siaddr chaddr) ++ rest)
    getLe packet 0 1 = op % 256 ^ 1 ∧ getLe packet 1 1 = dhcpHtype ∧ getLe packet 2 1 = dhcpHlen ∧
      getLe packet 4 4 = xid % 2 ^ 32 ∧ getLe packet 16 4 = yiaddr.toNat ∧
      getLe packet 28 6 = chaddr % 256 ^ 6 ∧ getLe packet 236 4 = dhcpMagicCookie := by
  have hread : ∀ k n v a, (dhcpFields op xid yiaddr siaddr chaddr)[k]? = some (n, v) →
      widths ((dhcpFields op xid yiaddr siaddr chaddr).take k) = a →
      getLe (writeBytes m 0 (layout (dhcpFields op xid yiaddr siaddr chaddr) ++ rest)) a n = v % 256 ^ n :=
    fun _ _ _ _ hf ha => getLe_layout m rest hf ha
  have hyiaddr : yiaddr.toNat % 256 ^ 4 = yiaddr.toNat := Nat.mod_eq_of_lt yiaddr.isLt
  refine ⟨hread 0 1 op 0 rfl rfl, hread 1 1 dhcpHtype 1 rfl rfl, hread 2 1 dhcpHlen 2 rfl rfl,
    hread 4 4 xid 4 rfl rfl, (hread 8 4 _ 16 rfl rfl).trans hyiaddr, hread 11 6 chaddr 28 rfl rfl,
    hread 13 4 dhcpMagicCookie 236 rfl ?_⟩
  simp [widths, dhcpFields]

theorem dhcpReq_layout (options : List Byte) : dhcpReq mac xid options =
    layout (dhcpFields dhcpOpRequest xid.toNat 0 0 mac.toNat) ++ options := by
  have hzero : List.replicate 16 (0 : Byte) =
      leBytes 4 0 ++ (leBytes 4 0 ++ (leBytes 4 0 ++ leBytes 4 0)) := rfl
  have hreserved : List.replicate 202 (0 : Byte) = leBytes 202 0 := (leBytes_zero 202).symm
  have haddr : (0 : Ipv4Addr).toNat = 0 := rfl
  unfold dhcpReq layout dhcpFields
  rw [hzero, hreserved, haddr]
  simp only [List.flatMap_cons, List.flatMap_nil, List.append_nil, List.append_assoc]

theorem dhcpReq_query (options : List Byte) : dhcpQuery (dhcpReq mac xid options) =
    (dhcpOption (BitVec.ofNat 8 dhcpOptionMessageType) options.length options).map fun type =>
      ⟨xid.toNat, chaddrOf mac, leNat type,
        (dhcpOption (BitVec.ofNat 8 dhcpOptionReqAddr) options.length options).map leNat⟩ := by
  have hlength : (layout (dhcpFields dhcpOpRequest xid.toNat 0 0 mac.toNat)).length = 240 :=
    (layout_length _).trans (dhcpFields_widths _ _ _ _ _)
  have hoptions : (dhcpReq mac xid options).drop 240 = options := by
    rw [dhcpReq_layout, List.drop_left' hlength]
  obtain ⟨hop, hhtype, hhlen, hxid, -, hchaddr, hcookie⟩ :=
    dhcpFields_read (fun _ => 0) options dhcpOpRequest xid.toNat 0 0 mac.toNat
  rw [← dhcpReq_layout] at hop hhtype hhlen hxid hchaddr hcookie
  unfold dhcpQuery
  dsimp only
  rw [if_pos ⟨hop, hhtype, hhlen, hcookie⟩, hoptions, hxid, hchaddr, Nat.mod_eq_of_lt xid.isLt]
  rfl

theorem dhcpDiscover_query : dhcpQuery (dhcpDiscover mac xid) =
    some ⟨xid.toNat, chaddrOf mac, dhcpMessageTypeDiscover, none⟩ := dhcpReq_query mac xid _

theorem dhcpRequest_query : dhcpQuery (dhcpRequest mac xid ip) =
    some ⟨xid.toNat, chaddrOf mac, dhcpMessageTypeRequest, some ip.toNat⟩ := by
  have hip : leNat (leBytes 4 ip.toNat) = ip.toNat :=
    (leNat_leBytes 4 ip.toNat).trans (Nat.mod_eq_of_lt ip.isLt)
  refine (dhcpReq_query mac xid _).trans ?_
  exact congrArg (fun addr => some (⟨xid.toNat, chaddrOf mac, dhcpMessageTypeRequest, some addr⟩ : DhcpQuery)) hip

end Formats

section Reply

variable (srv : DhcpServer) (type xid chaddr : Nat) (yiaddr : Ipv4Addr)

theorem reply_header : ∃ rest, srv.reply type xid chaddr yiaddr =
    layout (dhcpFields dhcpOpReply xid yiaddr srv.addr chaddr) ++ rest := by
  unfold DhcpServer.reply
  rw [layout_append, List.append_assoc]
  exact ⟨_, rfl⟩

theorem dhcpYiaddr_reply :
    dhcpYiaddr (writeBytes (fun _ => 0) 0 (srv.reply type xid chaddr yiaddr)) = yiaddr := by
  obtain ⟨rest, hreply⟩ := reply_header srv type xid chaddr yiaddr
  obtain ⟨-, -, -, -, hyiaddr, -⟩ :=
    dhcpFields_read (fun _ => 0) rest dhcpOpReply xid yiaddr srv.addr chaddr
  rw [hreply, dhcpYiaddr, loadIpv4, hyiaddr, BitVec.ofNat_toNat, BitVec.setWidth_eq]

theorem reply_options (m : Mem) (htype : type < 256) :
    getLe (writeBytes m 0 (srv.reply type xid chaddr yiaddr)) 240 1 = dhcpOptionMessageType ∧
      getLe (writeBytes m 0 (srv.reply type xid chaddr yiaddr)) 241 1 = 1 ∧
      getLe (writeBytes m 0 (srv.reply type xid chaddr yiaddr)) 242 1 = type := by
  have hread : ∀ k v a, (dhcpFields dhcpOpReply xid yiaddr srv.addr chaddr ++
        [(1, dhcpOptionMessageType), (1, 1), (1, type)])[k]? = some (1, v) →
      widths ((dhcpFields dhcpOpReply xid yiaddr srv.addr chaddr ++
        [(1, dhcpOptionMessageType), (1, 1), (1, type)]).take k) = a →
      getLe (writeBytes m 0 (srv.reply type xid chaddr yiaddr)) a 1 = v % 256 ^ 1 :=
    fun _ _ _ hf ha => getLe_layout m _ hf ha
  have hwidths := dhcpFields_widths dhcpOpReply xid yiaddr srv.addr chaddr
  refine ⟨hread 14 dhcpOptionMessageType 240 rfl ?_, hread 15 1 241 rfl ?_,
    (hread 16 type 242 rfl ?_).trans (Nat.mod_eq_of_lt htype)⟩
  · simp [widths, dhcpFields]
  · simp [widths, dhcpFields]
  · simp [widths, dhcpFields]

theorem reply_length : 244 ≤ (srv.reply type xid chaddr yiaddr).length := by
  have hwidths : widths (dhcpFields dhcpOpReply xid yiaddr srv.addr chaddr ++
      [(1, dhcpOptionMessageType), (1, 1), (1, type)]) = 243 := by
    simp [widths, dhcpFields]
  rw [DhcpServer.reply, List.length_append, layout_length, hwidths, List.length_append, leBytes_length]
  omega

/-- The client takes a reply in its transaction and of the type it waits for, and no other. -/
theorem dhcpAccepts_reply (id : BitVec 32) (want : Nat) (hxid : xid < 2 ^ 32) (htype : type < 256) :
    dhcpAccepts (writeBytes (fun _ => 0) 0 (srv.reply type xid chaddr yiaddr))
      (min (srv.reply type xid chaddr yiaddr).length 1024) id want = true ↔ xid = id.toNat ∧ type = want := by
  have hlength := reply_length srv type xid chaddr yiaddr
  obtain ⟨hkind, hone, hvalue⟩ := reply_options srv type xid chaddr yiaddr (fun _ => 0) htype
  obtain ⟨rest, hreply⟩ := reply_header srv type xid chaddr yiaddr
  obtain ⟨hop, hhtype, hhlen, hread, -, -, hcookie⟩ :=
    dhcpFields_read (fun _ => 0) rest dhcpOpReply xid yiaddr srv.addr chaddr
  rw [← hreply] at hop hhtype hhlen hread hcookie
  rw [Nat.mod_eq_of_lt hxid] at hread
  generalize hm : writeBytes (fun _ => 0) 0 (srv.reply type xid chaddr yiaddr) = m at *
  generalize (srv.reply type xid chaddr yiaddr).length = len at *
  simp only [dhcpAccepts, dhcpCheck, dhcpMessageType, Bool.and_eq_true, beq_iff_eq, decide_eq_true_eq, hvalue]
  rw [if_neg (show ¬ min len 1024 < 240 + 4 by omega)]
  have hnonzero : min len 1024 ≠ 0 := by omega
  constructor
  · rintro ⟨⟨-, hcheck⟩, hwant⟩
    refine ⟨?_, hwant⟩
    by_contra hne
    rw [if_pos fun h => hne (hread.symm.trans h.2.2.2.1)] at hcheck
    exact absurd hcheck (by decide)
  · rintro ⟨heq, hwant⟩
    refine ⟨⟨hnonzero, ?_⟩, hwant⟩
    exact if_neg fun h => h ⟨hop, hhtype, hhlen, hread.trans heq, hcookie, hkind, hone⟩

end Reply

end VijosOS
