import Mathlib.Data.List.Flatten
import VijosOS.Judge.Attempt
import VijosOS.Task.HandOff

/-!
# Sessions of the daemon

The daemon serves one request at a time. Each request that it takes up is acknowledged, then run
at most once, then answered with one result under the sequence number of the request, and nothing
else is ever sent: whatever the network loses, repeats or reorders and whatever the client does.
-/

namespace VijosOS

open Library

/-- The request in the first 24 bytes of the payload. -/
def UdpDispatch.judgeReq (d : UdpDispatch) : JudgeReq where
  seq := (messageWord d.payload 0).toNat
  timeLimit := (messageWord d.payload 1).toNat
  memLimit := (messageWord d.payload 2).toNat

theorem loadJudgeReq_take (m : Mem) {d : UdpDispatch} (h : judgeReqSize ≤ d.payload.length) :
    loadJudgeReq (writeBytes m 0 (d.payload.take judgeReqSize)) = d.judgeReq := by
  have hlen : (d.payload.take judgeReqSize).length = judgeReqSize := List.length_take_of_le h
  have hword : ∀ i < 3, getLe (writeBytes m 0 (d.payload.take judgeReqSize)) (8 * i) 8 =
      (messageWord d.payload i).toNat := by
    intro i hi
    have hfit : 8 * i + 8 ≤ judgeReqSize := by
      unfold judgeReqSize
      omega
    have hbytes := bytesAt_writeBytes_inside m 0 (d.payload.take judgeReqSize) (hfit.trans_eq hlen.symm)
    rw [Nat.zero_add] at hbytes
    rw [getLe, hbytes, ← messageWord_toNat, messageWord_take _ hfit]
  exact congr (congrArg₂ JudgeReq.mk (hword 0 (by decide)) (hword 1 (by decide))) (hword 2 (by decide))

/-- The run of a job is for its request. -/
theorem judgeJob_req {bssEnd : Nat} {elf stdin : List Byte} {env : JobEnv bssEnd} {req : JudgeReq} {res : JobResult}
    (h : judgeJob elf stdin env req = some res) : ∀ r ∈ res.run, r.req = req := by
  obtain ⟨elfGot, -, h⟩ := Option.bind_eq_some_iff.mp h
  obtain ⟨stdinGot, -, h⟩ := Option.bind_eq_some_iff.mp h
  split at h
  · obtain rfl := Option.some.inj h
    nofun
  · obtain ⟨exit, -, hfinish⟩ := Option.bind_eq_some_iff.mp h
    obtain ⟨⟨ret, stored⟩, -, hres⟩ := Option.map_eq_some_iff.mp hfinish
    dsimp only at hres
    intro r hr
    split_ifs at hres
    · obtain rfl := hres
      obtain rfl := Option.some.inj hr
      rfl
    · obtain rfl := hres
      obtain rfl := Option.some.inj hr
      rfl

namespace JudgeDaemon

/-- The two responses to a request. -/
def ackOf (ip : Ipv6Addr) (d : UdpDispatch) : SentUdp :=
  ⟨⟨d.sport, ip, judgeServerPort, JudgeResp.bytes ⟨BitVec.ofNat 64 d.judgeReq.seq, judgeRespAck, 0, 0, 0, 0⟩⟩, d.saddr⟩

def resultOf (ip : Ipv6Addr) (d : UdpDispatch) (r : JobResult) : SentUdp :=
  ⟨⟨d.sport, ip, judgeServerPort, (r.resp d.judgeReq.seq).bytes⟩, d.saddr⟩

theorem recv_cases (d : JudgeDaemon) (p : UdpDispatch) (hwaiting : d.sender = none) :
    (d.recv p).1.ip = d.ip ∧
      (judgeReqSize ≤ p.payload.length ∧ (d.recv p).1.sender = some (p.saddr, p.sport) ∧
          loadJudgeReq (d.recv p).1.req = p.judgeReq ∧ (d.recv p).2 = [ackOf d.ip p] ∨
        (d.recv p).1.sender = none ∧ (d.recv p).2 = []) := by
  have hrecv : d.recv p = d.request (copyLen judgeReqSize p.payload.length)
      (writeBytes d.req 0 (p.payload.take (copyLen judgeReqSize p.payload.length))) p.saddr p.sport := rfl
  by_cases hlen : judgeReqSize ≤ p.payload.length
  · have hcopy : copyLen judgeReqSize p.payload.length = judgeReqSize := by
      rw [copyLen_eq_min]
      exact Nat.min_eq_right hlen
    rw [hrecv, hcopy, request_of_eq rfl]
    refine ⟨rfl, .inl ⟨hlen, rfl, loadJudgeReq_take d.req hlen, ?_⟩⟩
    rw [loadJudgeReq_take d.req hlen]
    rfl
  · have hcopy : copyLen judgeReqSize p.payload.length ≠ judgeReqSize := by
      rw [copyLen_eq_min]
      omega
    rw [hrecv, request_of_ne hcopy]
    exact ⟨rfl, .inr ⟨hwaiting, rfl⟩⟩

end JudgeDaemon

namespace JudgeSystem

variable {bssEnd : Nat} {call : JudgeCall} {s s' : JudgeSystem}

/-- A datagram that was sent to the daemon and has the bytes of a request. -/
def Requested (s : JudgeSystem) (d : UdpDispatch) : Prop := d ∈ s.toDaemon ∧ judgeReqSize ≤ d.payload.length

/-- The sessions that are over, each with its result, and the request that is being served. -/
structure Sessions (ip : Ipv6Addr) (s : JudgeSystem) (done : List (UdpDispatch × JobResult))
    (serving : Option UdpDispatch) : Prop where
  addr : s.daemon.ip = ip
  sender : s.daemon.sender = serving.map fun d => (d.saddr, d.sport)
  req : ∀ d ∈ serving, loadJudgeReq s.daemon.req = d.judgeReq
  requested : ∀ d ∈ done.map Prod.fst ++ serving.toList, s.Requested d
  responses : s.toClient = (done.flatMap fun j => [JudgeDaemon.ackOf ip j.1, JudgeDaemon.resultOf ip j.1 j.2]) ++
    serving.toList.map (JudgeDaemon.ackOf ip)
  runs : s.runs = done.flatMap fun j => j.2.run.toList
  runReq : ∀ j ∈ done, ∀ r ∈ j.2.run, r.req = j.1.judgeReq

theorem start_sessions (h : Start s) : Sessions s.daemon.ip s [] none where
  addr := rfl
  sender := h.waiting
  req := nofun
  requested := nofun
  responses := h.toClient
  runs := h.runs
  runReq := nofun

/-- Steps that leave the daemon alone and only add requests. -/
theorem Sessions.keep {ip : Ipv6Addr} {done : List (UdpDispatch × JobResult)} {serving : Option UdpDispatch}
    (h : Sessions ip s done serving) (hdaemon : s'.daemon = s.daemon) (hclient : s'.toClient = s.toClient)
    (hruns : s'.runs = s.runs) (hrequests : s.toDaemon ⊆ s'.toDaemon) : Sessions ip s' done serving where
  addr := by rw [hdaemon, h.addr]
  sender := by rw [hdaemon, h.sender]
  req := by rw [hdaemon]; exact h.req
  requested := fun d hd => ⟨hrequests (h.requested d hd).1, (h.requested d hd).2⟩
  responses := by rw [hclient, h.responses]
  runs := by rw [hruns, h.runs]
  runReq := h.runReq

theorem step_sessions {ip : Ipv6Addr} {done : List (UdpDispatch × JobResult)} {serving : Option UdpDispatch}
    {l : JudgeLabel bssEnd} (h : Sessions ip s done serving) (hstep : step bssEnd call s l = some s') :
    ∃ done' serving', Sessions ip s' done' serving' := by
  cases l with
  | daemonRecv d =>
    simp only [step] at hstep
    split_ifs at hstep with hcond
    cases hstep
    obtain ⟨hd, hwaiting⟩ := hcond
    have hnone : serving = none := by
      have hsender := h.sender
      rw [hwaiting] at hsender
      exact Option.map_eq_none_iff.mp hsender.symm
    subst hnone
    obtain ⟨hip, ⟨hlen, hsender, hreq, hsent⟩ | ⟨hsender, hsent⟩⟩ := s.daemon.recv_cases d hwaiting
    · refine ⟨done, some d, ⟨hip.trans h.addr, hsender, ?_, ?_, ?_, h.runs, h.runReq⟩⟩
      · intro d' hd'
        obtain rfl := Option.some.inj hd'
        exact hreq
      · intro d' hd'
        obtain hold | hnew := List.mem_append.mp hd'
        · exact h.requested d' (List.mem_append_left _ hold)
        · obtain rfl := List.mem_singleton.mp hnew
          exact ⟨hd, hlen⟩
      · have hresponses := h.responses
        simp only [Option.toList_none, List.map_nil, List.append_nil] at hresponses
        dsimp only
        rw [hsent, hresponses, h.addr]
        rfl
    · refine ⟨done, none,
        ⟨hip.trans h.addr, hsender, (fun _ hd => by cases hd), h.requested, ?_, h.runs, h.runReq⟩⟩
      dsimp only
      rw [hsent, List.append_nil]
      exact h.responses
  | doJudge env =>
    simp only [step] at hstep
    split_ifs at hstep with hwaiting
    obtain ⟨r, hjob, rfl⟩ := Option.map_eq_some_iff.mp hstep
    cases serving with
    | none => exact absurd h.sender hwaiting
    | some d =>
      have hreq := h.req d rfl
      have hsender : s.daemon.sender = some (d.saddr, d.sport) := h.sender
      refine ⟨done ++ [(d, r)], none, ⟨h.addr, rfl, (fun _ hd => by cases hd), ?_, ?_, ?_, ?_⟩⟩
      · intro d' hd'
        refine h.requested d' ?_
        simpa using hd'
      · have hresponses := h.responses
        simp only [JudgeDaemon.finish, hsender, hreq, hresponses, Option.toList_some, Option.toList_none, List.map_cons,
          List.map_nil, List.flatMap_append, List.flatMap_cons, List.flatMap_nil, List.append_nil, List.append_assoc,
          JudgeDaemon.respond, h.addr]
        rfl
      · simp only [h.runs, List.flatMap_append, List.flatMap_cons, List.flatMap_nil, List.append_nil]
      · intro j hj
        obtain hold | hnew := List.mem_append.mp hj
        · exact h.runReq j hold
        · obtain rfl := List.mem_singleton.mp hnew
          rw [hreq] at hjob
          exact judgeJob_req hjob
  | copyElf =>
    simp only [step] at hstep
    split at hstep
    · cases hstep
      exact ⟨done, serving, h.keep rfl rfl rfl (List.Subset.refl _)⟩
    · cases hstep
  | copyStdin =>
    simp only [step] at hstep
    split at hstep
    · cases hstep
      exact ⟨done, serving, h.keep rfl rfl rfl (List.Subset.refl _)⟩
    · cases hstep
  | send seq =>
    obtain ⟨⟨c, d⟩, -, rfl⟩ := Option.map_eq_some_iff.mp hstep
    exact ⟨done, serving, h.keep rfl rfl rfl (List.subset_append_left _ _)⟩
  | clientRecv d =>
    simp only [step] at hstep
    split_ifs at hstep
    cases hstep
    exact ⟨done, serving, h.keep rfl rfl rfl (List.Subset.refl _)⟩
  | clientTimeout =>
    obtain ⟨c, -, rfl⟩ := Option.map_eq_some_iff.mp hstep
    exact ⟨done, serving, h.keep rfl rfl rfl (List.Subset.refl _)⟩
  | readStdout =>
    obtain ⟨stdout, -, hread⟩ := Option.bind_eq_some_iff.mp hstep
    obtain ⟨c, -, rfl⟩ := Option.map_eq_some_iff.mp hread
    exact ⟨done, serving, h.keep rfl rfl rfl (List.Subset.refl _)⟩
  | serverWrites bytes =>
    cases hstep
    exact ⟨done, serving, h.keep rfl rfl rfl (List.Subset.refl _)⟩

/-- In every run the daemon has served its requests one after the other. -/
theorem run_sessions {ls : List (JudgeLabel bssEnd)} (hstart : Start s)
    (hrun : runSteps (step bssEnd call) s ls = some s') :
    ∃ done serving, Sessions s.daemon.ip s' done serving := by
  have hinit : ∃ done serving, Sessions s.daemon.ip s done serving := ⟨[], none, start_sessions hstart⟩
  refine runSteps_invariant (P := fun s' => ∃ done serving, Sessions s.daemon.ip s' done serving)
    (fun _ _ _ hs hl => ?_) hinit hrun
  obtain ⟨done, serving, h⟩ := hs
  exact step_sessions h hl

/-- A client with empty files, and the daemon. -/
def smallIdle : JudgeSystem where
  client := ⟨ipv4Compatible 0x3701a8c0, 50000, 0, 0, .copyElf⟩
  daemon := ⟨ipv4Compatible 0x0201a8c0, fun _ => 0, none⟩
  elf := []
  stdin := []
  stdout := none
  toDaemon := []
  toClient := []
  runs := []

/-- The first request reaches the daemon. -/
theorem run_sessions_small : ∃ s',
    runSteps (step 0x40800 ⟨[], [], 1000, 0⟩) smallIdle [.copyElf, .copyStdin, .send 7,
      .daemonRecv ⟨judgeServerPort, ipv4Compatible 0x3701a8c0, 50000, packReq ⟨[], [], 1000, 0⟩ 7⟩] = some s' ∧
    s'.toClient.length = 1 ∧ ∃ done serving, Sessions smallIdle.daemon.ip s' done serving := by
  have hmap : (runSteps (step 0x40800 ⟨[], [], 1000, 0⟩) smallIdle [.copyElf, .copyStdin, .send 7,
      .daemonRecv ⟨judgeServerPort, ipv4Compatible 0x3701a8c0, 50000, packReq ⟨[], [], 1000, 0⟩ 7⟩]).map
      (fun s => s.toClient.length) = some 1 := by
    decide +kernel
  obtain ⟨s', hrun, hlength⟩ := Option.map_eq_some_iff.mp hmap
  exact ⟨s', hrun, hlength, run_sessions ⟨rfl, rfl, rfl, rfl, rfl, rfl⟩ hrun⟩

end JudgeSystem

end VijosOS
