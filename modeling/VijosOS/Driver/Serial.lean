import VijosOS.Console.Printf
import VijosOS.Library.Leads

/-!
# The serial console

`putchar` through the drivers `uartlite.c` and `uart16550.c`, which differ in the status bit that
`poll_send` reads. The FIFO is emptied onto the line at any time, and loses what is stored while it
is full.
-/

namespace VijosOS

open Library

/-- The sending half of a device: `ready` is what `poll_send` returns when the FIFO holds these
bytes. Then there is room, and an empty FIFO is ready. -/
structure SerialPort where
  capacity : Nat
  ready : List Byte → Bool
  room : ∀ fifo, ready fifo = true → fifo.length < capacity
  idle : ready [] = true

/-- `!(UARTLITE_STAT & UARTLITE_TX_FIFO_FULL)` -/
def uartlite : SerialPort where
  capacity := 16
  ready := fun fifo => decide (fifo.length < 16)
  room := fun _ h => of_decide_eq_true h
  idle := rfl

/-- `UART_REG_STATUS_TX` is set when the FIFO is empty. -/
def uart16550 : SerialPort where
  capacity := 16
  ready := fun fifo => fifo.isEmpty
  room := fun fifo h => by
    rw [List.isEmpty_iff.mp h]
    decide
  idle := rfl

/-- Where a call of `send` with its argument stands. -/
inductive SendCall
  | enter (c : Byte)
  | wait (c : Byte)
  | store (c : Byte)

/-- The characters `putchar` is still to be called with, the calls of `send` with the innermost
first, the FIFO and the line. -/
structure Serial where
  text : List Byte
  calls : List SendCall
  fifo : List Byte
  line : List Byte

inductive SerialStep
  | putchar
  | cpu
  | drain

namespace Serial

variable (port : SerialPort)

/-- The innermost call goes on. -/
def cpuStep (s : Serial) : Option Serial :=
  match s.calls with
  | [] => none
  | .enter c :: calls =>
    if c = chr '\n' then some { s with calls := .enter (chr '\r') :: .wait c :: calls }
    else some { s with calls := .wait c :: calls }
  | .wait c :: calls =>
    if port.ready s.fifo then some { s with calls := .store c :: calls } else some s
  | .store c :: calls =>
    some { s with
      calls := calls
      fifo := if s.fifo.length < port.capacity then s.fifo ++ [c] else s.fifo }

def step (s : Serial) : SerialStep → Option Serial
  | .putchar =>
    match s.calls, s.text with
    | [], c :: text => some { s with text := text, calls := [.enter c] }
    | _, _ => none
  | .cpu => s.cpuStep port
  | .drain =>
    match s.fifo with
    | [] => none
    | c :: fifo => some { s with fifo := fifo, line := s.line ++ [c] }

def start (text : List Byte) : Serial := ⟨text, [], [], []⟩

end Serial

/-! ## What is to arrive -/

/-- A newline is sent as two characters. -/
def expanded (text : List Byte) : List Byte :=
  text.flatMap fun c => if c = chr '\n' then [chr '\r', chr '\n'] else [c]

def SendCall.bytes : SendCall → List Byte
  | enter c => expanded [c]
  | wait c => [c]
  | store c => [c]

theorem expanded_cons (c : Byte) (text : List Byte) :
    expanded (c :: text) = expanded [c] ++ expanded text := by
  simp [expanded]

namespace Serial

variable {port : SerialPort} {text : List Byte} {s t : Serial}

/-- Nothing is lost: what is on the line, in the FIFO and still to come is the whole text, and only
the innermost call stores, with room for it. -/
structure Inv (port : SerialPort) (text : List Byte) (s : Serial) : Prop where
  whole : s.line ++ (s.fifo ++ (s.calls.flatMap SendCall.bytes ++ expanded s.text)) = expanded text
  fits : s.fifo.length ≤ port.capacity
  room : ∀ c calls, s.calls = .store c :: calls → s.fifo.length < port.capacity
  outer : ∀ call ∈ s.calls.tail, ∃ c, call = .wait c

theorem start_inv (port : SerialPort) (text : List Byte) : Inv port text (start text) where
  whole := rfl
  fits := Nat.zero_le _
  room := fun _ _ h => by cases h
  outer := fun _ h => by cases h

theorem cpuStep_inv (h : Inv port text s) (hstep : s.cpuStep port = some t) : Inv port text t := by
  have hwhole := h.whole
  cases hcalls : s.calls with
  | nil => simp [cpuStep, hcalls] at hstep
  | cons call calls =>
    rw [hcalls] at hwhole
    have houter : ∀ call ∈ calls, ∃ c, call = .wait c := by
      intro call hcall
      exact h.outer call (by rw [hcalls]; exact hcall)
    cases call with
    | enter c =>
      by_cases hc : c = chr '\n'
      · simp only [cpuStep, hcalls, if_pos hc, Option.some.injEq] at hstep
        subst hstep hc
        refine ⟨hwhole, h.fits, fun _ _ hd => (nomatch hd), ?_⟩
        intro call hcall
        rcases List.mem_cons.mp hcall with rfl | hcall
        · exact ⟨chr '\n', rfl⟩
        · exact houter call hcall
      · simp only [cpuStep, hcalls, if_neg hc, Option.some.injEq] at hstep
        subst hstep
        have hplain : (SendCall.enter c).bytes = [c] := by simp [SendCall.bytes, expanded, hc]
        rw [List.flatMap_cons, hplain] at hwhole
        exact ⟨hwhole, h.fits, fun _ _ hd => (nomatch hd), houter⟩
    | wait c =>
      by_cases hready : port.ready s.fifo = true
      · simp only [cpuStep, hcalls, if_pos hready, Option.some.injEq] at hstep
        subst hstep
        exact ⟨hwhole, h.fits, fun _ _ _ => port.room s.fifo hready, houter⟩
      · simp only [cpuStep, hcalls, if_neg hready, Option.some.injEq] at hstep
        subst hstep
        exact h
    | store c =>
      have hroom := h.room c calls hcalls
      simp only [cpuStep, hcalls, if_pos hroom, Option.some.injEq] at hstep
      subst hstep
      refine ⟨?_, ?_, ?_, fun call hcall => houter call (List.mem_of_mem_tail hcall)⟩
      · rw [List.append_assoc]
        exact hwhole
      · rw [List.length_append]
        exact hroom
      · -- the call that goes on is one that waits
        intro d ds hd
        have hmem : SendCall.store d ∈ calls := by
          rw [show calls = .store d :: ds from hd]
          exact List.mem_cons_self
        obtain ⟨e, he⟩ := houter _ hmem
        cases he

theorem step_inv {l : SerialStep} (h : Inv port text s) (hstep : s.step port l = some t) :
    Inv port text t := by
  have hwhole := h.whole
  cases l with
  | putchar =>
    cases hcalls : s.calls with
    | cons call calls => simp [step, hcalls] at hstep
    | nil =>
      cases htext : s.text with
      | nil => simp [step, hcalls, htext] at hstep
      | cons c rest =>
        simp only [step, hcalls, htext, Option.some.injEq] at hstep
        subst hstep
        rw [hcalls, htext, expanded_cons] at hwhole
        exact ⟨by simpa [SendCall.bytes] using hwhole, h.fits, fun _ _ hd => (nomatch hd),
          fun _ hcall => (nomatch hcall)⟩
  | cpu => exact cpuStep_inv h hstep
  | drain =>
    cases hfifo : s.fifo with
    | nil => simp [step, hfifo] at hstep
    | cons c fifo =>
      simp only [step, hfifo, Option.some.injEq] at hstep
      subst hstep
      have hlength : fifo.length + 1 ≤ port.capacity := by
        have hfits := h.fits
        rw [hfifo] at hfits
        exact hfits
      rw [hfifo] at hwhole
      refine ⟨?_, Nat.le_of_succ_le hlength, fun _ _ _ => hlength, h.outer⟩
      rw [List.append_assoc]
      exact hwhole

/-! ## Everything arrives -/

def callSteps : SendCall → Nat
  | .enter c => if c = chr '\n' then 8 else 4
  | .wait _ => 3
  | .store _ => 2

/-- The steps that are left at most. -/
def stepsLeft (s : Serial) : Nat :=
  s.fifo.length + ((s.calls.map callSteps).sum + (s.text.map fun c => callSteps (.enter c) + 1).sum)

/-- Unless all has arrived, some step brings the end nearer. -/
theorem lowers (s : Serial) (hpos : 0 < s.stepsLeft) :
    ∃ l t, s.step port l = some t ∧ t.stepsLeft < s.stepsLeft := by
  obtain ⟨text, calls, fifo, line⟩ := s
  cases calls with
  | nil =>
    cases text with
    | nil =>
      cases fifo with
      | nil => exact absurd hpos (Nat.lt_irrefl 0)
      | cons c fifo => exact ⟨.drain, _, rfl, by simp [stepsLeft]⟩
    | cons c text => exact ⟨.putchar, _, rfl, by simp [stepsLeft]⟩
  | cons call calls =>
    cases call with
    | enter c =>
      by_cases hc : c = chr '\n'
      · refine ⟨.cpu, _, if_pos hc, ?_⟩
        have hreturn : ¬ (chr '\r' = chr '\n') := by decide
        simp [stepsLeft, callSteps, hc, hreturn]
        omega
      · refine ⟨.cpu, _, if_neg hc, ?_⟩
        simp [stepsLeft, callSteps, hc]
    | wait c =>
      by_cases hready : port.ready fifo = true
      · refine ⟨.cpu, _, if_pos hready, ?_⟩
        simp [stepsLeft, callSteps]
      · cases fifo with
        | nil => exact absurd port.idle hready
        | cons d fifo => exact ⟨.drain, _, rfl, by simp [stepsLeft]⟩
    | store c =>
      refine ⟨.cpu, _, rfl, ?_⟩
      by_cases hroom : fifo.length < port.capacity
      · simp [stepsLeft, callSteps, hroom]
        omega
      · simp [stepsLeft, callSteps, hroom]

/-- In every run of the driver and the device, the bytes on the line are in order the beginning of
the text with its newlines expanded, a byte is stored only where the FIFO has room, and the run can
go on until all of the text has arrived. -/
theorem run_delivers {ls : List SerialStep} (hrun : runSteps (step port) (start text) ls = some s) :
    s.line <+: expanded text ∧
      (∀ c calls, s.calls = .store c :: calls → s.fifo.length < port.capacity) ∧
      Leads (step port) s.stepsLeft s fun t => t.line = expanded text := by
  have hinv : Inv port text s :=
    runSteps_invariant (fun _ _ _ h hstep => step_inv h hstep) (start_inv port text) hrun
  refine ⟨⟨_, hinv.whole⟩, hinv.room, ?_⟩
  have hlower : ∀ s, Inv port text s → 0 < s.stepsLeft →
      Leads (step port) 1 s fun t => Inv port text t ∧ t.stepsLeft < s.stepsLeft := by
    intro s h hpos
    obtain ⟨l, t, hstep, hlt⟩ := lowers s hpos
    exact Leads.cons hstep (Leads.here ⟨step_inv h hstep, hlt⟩)
  obtain ⟨ls', t, hlen, hrun', ht, hzero⟩ := Leads.of_measure hlower hinv
  refine ⟨ls', t, by omega, hrun', ?_⟩
  obtain ⟨text', calls, fifo, line⟩ := t
  have hsum : fifo.length +
      ((calls.map callSteps).sum + (text'.map fun c => callSteps (.enter c) + 1).sum) = 0 := hzero
  have hfifo : fifo = [] := List.length_eq_zero_iff.mp (by omega)
  have htext : text' = [] := by
    cases text' with
    | nil => rfl
    | cons c text' =>
      rw [List.map_cons, List.sum_cons] at hsum
      omega
  have hcalls : calls = [] := by
    cases calls with
    | nil => rfl
    | cons call calls =>
      have hcost : 0 < callSteps call := by
        cases call with
        | enter c =>
          rw [callSteps]
          split_ifs <;> decide
        | wait c => exact Nat.zero_lt_succ 2
        | store c => exact Nat.zero_lt_succ 1
      rw [List.map_cons, List.sum_cons] at hsum
      omega
  subst hfifo htext hcalls
  have hwhole := ht.whole
  simpa [expanded] using hwhole

/-- The carriage return of a line break is about to be stored. -/
theorem run_delivers_small : ∃ s, runSteps (step uartlite) (start [chr 'a', chr '\n'])
    [.putchar, .cpu, .cpu, .cpu, .drain, .putchar, .cpu, .cpu, .cpu] = some s ∧
      s.line <+: expanded [chr 'a', chr '\n'] := by
  have hrun : runSteps (step uartlite) (start [chr 'a', chr '\n'])
      [.putchar, .cpu, .cpu, .cpu, .drain, .putchar, .cpu, .cpu, .cpu] =
        some ⟨[], [.store (chr '\r'), .wait (chr '\n')], [], [chr 'a']⟩ := rfl
  exact ⟨_, hrun, (run_delivers hrun).1⟩

end Serial

end VijosOS
