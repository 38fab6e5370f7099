import Sricd.Deframing
import Sricd.Lib.Run
import Sricd.Encoding

/-!
# `ostric`

The simulated bus at the other end of the serial port. It collects what it
reads in `pty_buf` and gives `process_command` one unescaped frame at a
time.

The buffers of `ostric` are shorter than those of the daemon, and it masks
the length byte to six bits. What it understands is therefore less than
what the daemon can send (`ostric_understands_iff`).
-/

namespace Sricd

open Sricd.Lib

/-- `sizeof (pty_buf)` and `sizeof (tmp_buf)`. -/
abbrev ptyBufSize : Nat := 128

/-- What `process_command` calls, with the buffer it hands on. -/
inductive Command where
  | gateway (buffer : List Byte)
  | bus (buffer : List Byte)
deriving DecidableEq, Repr

def Command.buffer : Command → List Byte
  | .gateway b => b
  | .bus b => b

/-- `process_command`: the commands it dispatches, or `none` where it asks
for more data by returning 1. -/
def processCommand (buffer : List Byte) (len : Nat) : Option (List Command) :=
  let cmdlen := (buffer.getD 3 0 &&& 0x3F).toNat + 6
  if cmdlen > len then none
  else
    let crc := crc16 (buffer.take (cmdlen - 2))
    let sentcrc := (buffer.getD (cmdlen - 2) 0).zeroExtend 16
      ||| (buffer.getD (cmdlen - 1) 0).zeroExtend 16 <<< 8
    -- the data counts as ingested
    if crc ≠ sentcrc then some []
    else if buffer.getD 0 0 = 0x8E then some [.gateway (buffer.take cmdlen)]
    else some [.bus (buffer.take cmdlen)]

/-- `try_parsing_stuff`, on `pty_buf` and a `tmp_buf` that holds `tmp`
when it is entered. -/
def tryParsingStuff (tmp : List Byte) : List Byte → List Byte × List Command
  | [] => ([], [])
  | b :: pty =>
      if b ≠ 0x7E ∧ b ≠ 0x8E then tryParsingStuff tmp pty
      else
        let (srcLen, dest) := unescape pty (ptyBufSize - 1)
        match processCommand (writeAt (writeAt tmp 0 [b]) 1 dest) (dest.length + 1) with
        | some cmds => ((b :: pty).drop (srcLen + 1), cmds)
        | none => (b :: pty, [])

/-- The pseudo-terminal: what the daemon has written and `ostric` has not
read, and `pty_buf`. -/
structure Pty where
  input : List Byte
  buf : List Byte
deriving DecidableEq, Repr

/-- One call of `read_frames`: how many bytes `read` would return if it
had room for them, and what the stack holds where `tmp_buf` will be. -/
structure ReadFrames where
  ready : Nat
  tmp : List Byte

/-- `try_reading_stuff`. -/
def Pty.tryReadingStuff (p : Pty) (ready : Nat) : Pty :=
  let n := min ready (ptyBufSize - p.buf.length)
  { input := p.input.drop n, buf := p.buf ++ p.input.take n }

/-- Reading moves bytes, and loses none. -/
theorem Pty.tryReadingStuff_append (p : Pty) (ready : Nat) :
    (p.tryReadingStuff ready).buf ++ (p.tryReadingStuff ready).input = p.buf ++ p.input := by
  rw [tryReadingStuff, List.append_assoc, List.take_append_drop]

/-- `read_frames`. -/
def Pty.readFrames (p : Pty) (r : ReadFrames) : Except Halt (Pty × List Command) :=
  let p := p.tryReadingStuff r.ready
  let (buf, cmds) := tryParsingStuff r.tmp p.buf
  .ok ({ p with buf }, cmds)

/-- The command that stands for a frame of the daemon. -/
def FrameT.command (f : FrameT) : Command :=
  match f.type with
  | .gwConf => .gateway f.bytes
  | .sric => .bus f.bytes

/-- `ostric` understands a frame: with an empty `pty_buf`, and for any
reads that make progress, the frame has been dispatched as the one command
it stands for by the time it is used up, and nothing of it is left. -/
def FrameT.Understood (f : FrameT) : Prop :=
  ∀ reads : List ReadFrames, (∀ r ∈ reads, 0 < r.ready ∧ r.tmp.length = ptyBufSize) →
    f.wire.length ≤ reads.length →
    run Pty.readFrames ⟨f.wire, []⟩ reads = .ok (⟨[], []⟩, [f.command])

/-! ## One frame -/

/-- `tmp_buf` behind `unescape`. -/
theorem tmpBuf_eq (tmp dest : List Byte) (b : Byte) :
    ∃ rest, writeAt (writeAt tmp 0 [b]) 1 dest = b :: dest ++ rest := by
  refine ⟨((b :: tmp.drop 1).drop (1 + dest.length)), ?_⟩
  rw [writeAt, writeAt]
  rfl

/-- Six bits of a length byte below 64. -/
theorem lenMask {n : Nat} (h : n < payloadMax) :
    (BitVec.ofNat 8 n &&& 0x3F : Byte).toNat = n := by
  have h64 : payloadMax = 64 := rfl
  have hn : n % 256 = n := Nat.mod_eq_of_lt (by omega)
  have hm : n &&& 63 = n % 2 ^ 6 := Nat.and_two_pow_sub_one_eq_mod n 6
  have hm6 : n % 2 ^ 6 = n := Nat.mod_eq_of_lt (by omega)
  rw [BitVec.toNat_and, BitVec.toNat_ofNat]
  show n % 256 &&& 63 = n
  rw [hn, hm, hm6]

theorem getD_behind (x y : List Byte) (i : Nat) :
    (x ++ y).getD (x.length + i) 0 = y.getD i 0 := by
  rw [List.getD_eq_getElem?_getD, List.getElem?_append_right (Nat.le_add_right ..),
    Nat.add_sub_cancel_left, List.getD_eq_getElem?_getD]

/-- A command whose length byte and checksum are right. -/
theorem processCommand_checked {head : List Byte} {lo hi : Byte}
    (hlen : (head.getD 3 0 &&& 0x3F).toNat + 4 = head.length)
    (hcrc : crc16 head = lo.zeroExtend 16 ||| hi.zeroExtend 16 <<< 8) (rest : List Byte) :
    processCommand (head ++ lo :: hi :: rest) (head.length + 2)
      = if head.getD 0 0 = 0x8E then some [.gateway (head ++ [lo, hi])]
        else some [.bus (head ++ [lo, hi])] := by
  have hget : ∀ i, i < 4 → (head ++ lo :: hi :: rest).getD i 0 = head.getD i 0 := by
    intro i hi
    rw [List.getD_eq_getElem?_getD, List.getElem?_append_left (by omega),
      List.getD_eq_getElem?_getD]
  have hcmd : (head.getD 3 0 &&& 0x3F).toNat + 6 = head.length + 2 := by omega
  have hlo : (head ++ lo :: hi :: rest).getD head.length 0 = lo := getD_behind head _ 0
  have hhi : (head ++ lo :: hi :: rest).getD (head.length + 1) 0 = hi := getD_behind head _ 1
  have hall : (head ++ lo :: hi :: rest).take (head.length + 2) = head ++ [lo, hi] := by
    rw [show head ++ lo :: hi :: rest = (head ++ [lo, hi]) ++ rest by simp]
    exact List.take_left' (by simp)
  rw [processCommand, hget 3 (by decide), hcmd]
  dsimp only
  rw [if_neg (Nat.lt_irrefl _), Nat.add_sub_cancel, show head.length + 2 - 1 = head.length + 1 from rfl,
    hlo, hhi, List.take_left' rfl, if_neg (not_not.mpr hcrc), hget 0 (by decide), hall]

namespace FrameT

variable {f : FrameT}

theorem wire_framing (f : FrameT) : ¬(f.type.byte ≠ 0x7E ∧ f.type.byte ≠ 0x8E) := by
  cases f.type <;> decide

/-- A frame that is not complete yet asks for more data. -/
theorem processCommand_part (hf : f.payload.length < payloadMax) {q r : List Byte}
    (hqr : f.bytes.tail = q ++ r) (hr : r ≠ []) (rest : List Byte) :
    processCommand (f.type.byte :: q ++ rest) (q.length + 1) = none := by
  have h6 : sricOverhead = 6 := rfl
  have hlen := congrArg List.length hqr
  have hpos := List.length_pos_iff.mpr hr
  rw [f.tail_length, List.length_append] at hlen
  apply if_pos
  by_cases h3 : q.length < 3
  · omega
  · -- the length byte is there
    match q, h3 with
    | [], h3 => exact absurd (Nat.succ_pos 2) h3
    | [_], h3 => exact absurd (Nat.lt_add_of_pos_right (Nat.succ_pos 1)) h3
    | [_, _], h3 => exact absurd (Nat.lt_succ_self 2) h3
    | a :: b :: c :: q, _ =>
        have hc : c = BitVec.ofNat 8 f.payload.length := by
          have := congrArg (List.getD · 2 0) hqr
          exact this.symm
        have hget : (f.type.byte :: (a :: b :: c :: q) ++ rest).getD 3 0 = c := rfl
        rw [hget, hc, lenMask hf]
        simp only [List.length_cons] at hlen ⊢
        omega

/-- The whole frame is dispatched. -/
theorem processCommand_whole (hf : f.payload.length < payloadMax) (rest : List Byte) :
    processCommand (f.type.byte :: f.bytes.tail ++ rest) (f.bytes.tail.length + 1)
      = some [f.command] := by
  have h6 : sricOverhead = 6 := rfl
  have h4 : sricHeaderSize = 4 := rfl
  have hlen : (f.head.getD 3 0 &&& 0x3F).toNat + 4 = f.head.length := by
    rw [f.head_length, h4, Nat.add_comm]
    exact congrArg (4 + ·) (lenMask hf)
  have htail : f.bytes.tail.length + 1 = f.head.length + 2 := by
    rw [f.head_length, f.tail_length]
    omega
  have hb : f.type.byte :: f.bytes.tail ++ rest
      = f.head ++ (crc16 f.head).truncate 8 :: (crc16 f.head >>> 8).truncate 8 :: rest := by
    rw [← f.bytes_eq_cons, bytes, List.append_assoc]
    rfl
  rw [hb, htail, processCommand_checked hlen (crc_bytes _).symm rest, command, bytes]
  have htype : f.head.getD 0 0 = f.type.byte := rfl
  rw [htype]
  cases f.type with
  | sric => rw [if_neg (by decide)]
  | gwConf => rw [if_pos (by decide)]

/-! ## One call of `read_frames` -/

/-- A part of a frame stays in `pty_buf`. -/
theorem tryParsingStuff_part (hf : f.payload.length < payloadMax) {buf fut : List Byte}
    (hcut : buf ++ fut = f.wire) (hfut : fut ≠ []) (tmp : List Byte) :
    tryParsingStuff tmp buf = (buf, []) := by
  cases buf with
  | nil => rfl
  | cons b u =>
      obtain ⟨rfl, hu⟩ := List.cons.inj hcut
      obtain ⟨q, r, hqr, hq, hr⟩ := unescape_stuff hu (ptyBufSize - 1)
      have hne : r ≠ [] := by
        intro hx
        obtain rfl := hx
        exact hfut (List.append_eq_nil_iff.mp hr).2
      obtain ⟨rest, htmp⟩ := tmpBuf_eq tmp q f.type.byte
      rw [tryParsingStuff, if_neg f.wire_framing]
      simp only [hq, htmp, processCommand_part hf hqr hne]

/-- A whole frame is dispatched. -/
theorem tryParsingStuff_whole (hf : f.payload.length < payloadMax) (tmp : List Byte) :
    tryParsingStuff tmp f.wire = ([], [f.command]) := by
  have h6 : sricOverhead = 6 := rfl
  have h64 : payloadMax = 64 := rfl
  have hroom : f.bytes.tail.length ≤ ptyBufSize - 1 := by
    have h128 : ptyBufSize = 128 := rfl
    rw [f.tail_length]
    omega
  obtain ⟨rest, htmp⟩ := tmpBuf_eq tmp f.bytes.tail f.type.byte
  rw [wire, tryParsingStuff, if_neg f.wire_framing, unescape_stuff_all _ hroom]
  simp only [htmp, processCommand_whole hf]
  rw [List.drop_succ_cons, List.drop_length]

end FrameT

/-- A buffer handed on is as long as six bits of a length byte allow. -/
theorem processCommand_length {buffer : List Byte} {len : Nat} {cmds : List Command}
    (h : processCommand buffer len = some cmds) :
    ∀ c ∈ cmds, c.buffer.length < sricOverhead + payloadMax := by
  have h6 : sricOverhead = 6 := rfl
  have h64 : payloadMax = 64 := rfl
  have hmask : (buffer.getD 3 0 &&& 0x3F).toNat < 64 := by
    rw [BitVec.toNat_and]
    exact Nat.and_lt_two_pow _ (n := 6) (by decide)
  rw [processCommand] at h
  dsimp only at h
  split at h
  · cases h
  split at h
  · cases h
    exact fun _ hc => absurd hc List.not_mem_nil
  split at h <;>
  · cases h
    intro c hc
    obtain rfl := List.mem_singleton.mp hc
    apply Nat.lt_of_le_of_lt (List.length_take_le _ _)
    omega

theorem tryParsingStuff_length (tmp buf : List Byte) :
    ∀ c ∈ (tryParsingStuff tmp buf).2, c.buffer.length < sricOverhead + payloadMax := by
  fun_induction tryParsingStuff tmp buf with
  | case1 => exact fun _ hc => absurd hc List.not_mem_nil
  | case2 b pty h ih => exact ih
  | case3 b pty h srcLen dest hu cmds hp => exact processCommand_length hp
  | case4 => exact fun _ hc => absurd hc List.not_mem_nil

namespace FrameT

variable {f : FrameT}

/-! ## The whole input -/

/-- What has been read of the frame, and what has not. -/
theorem readFrames_part (hf : f.payload.length < payloadMax) {p : Pty}
    (hcut : p.buf ++ p.input = f.wire) (r : ReadFrames)
    (hleft : (p.tryReadingStuff r.ready).input ≠ []) :
    p.readFrames r = .ok (p.tryReadingStuff r.ready, []) := by
  rw [Pty.readFrames]
  simp only [tryParsingStuff_part hf ((p.tryReadingStuff_append r.ready).trans hcut) hleft]

/-- With nothing left to read, nothing happens. -/
theorem run_idle (reads : List ReadFrames) :
    run Pty.readFrames ⟨[], []⟩ reads = .ok (⟨[], []⟩, []) := by
  induction reads with
  | nil => rfl
  | cons r reads ih =>
      have hstep : Pty.readFrames ⟨[], []⟩ r = .ok (⟨[], []⟩, []) := by
        rw [Pty.readFrames, Pty.tryReadingStuff, List.take_nil, List.drop_nil]
        rfl
      exact run_cons_ok.mpr ⟨_, [], [], hstep, ih, rfl⟩

/-- A frame that fits `pty_buf` is dispatched when its last byte is
read. -/
theorem run_reads (hf : f.payload.length < payloadMax) (hfit : f.wire.length ≤ ptyBufSize)
    {reads : List ReadFrames} (hr : ∀ r ∈ reads, 0 < r.ready) {p : Pty}
    (hcut : p.buf ++ p.input = f.wire) (hleft : p.input ≠ [])
    (hlen : p.input.length ≤ reads.length) :
    run Pty.readFrames p reads = .ok (⟨[], []⟩, [f.command]) := by
  induction reads generalizing p with
  | nil => exact absurd (List.length_eq_zero_iff.mp (Nat.le_zero.mp hlen)) hleft
  | cons r reads ih =>
      have hready := hr r List.mem_cons_self
      have hpos := List.length_pos_iff.mpr hleft
      have hwire := congrArg List.length hcut
      rw [List.length_append] at hwire
      rw [List.length_cons] at hlen
      by_cases hl : (p.tryReadingStuff r.ready).input = []
      · -- the rest of the frame is read
        have hbuf : (p.tryReadingStuff r.ready).buf = f.wire := by
          rw [← hcut, ← p.tryReadingStuff_append r.ready, hl, List.append_nil]
        have hstep : p.readFrames r = .ok (⟨[], []⟩, [f.command]) := by
          rw [Pty.readFrames]
          simp only [hbuf, tryParsingStuff_whole hf, hl]
        exact run_cons_ok.mpr ⟨_, _, [], hstep, run_idle reads, rfl⟩
      · have hstep := readFrames_part hf hcut r hl
        have hrest : (p.tryReadingStuff r.ready).input.length < p.input.length := by
          rw [Pty.tryReadingStuff, List.length_drop]
          omega
        refine run_cons_ok.mpr ⟨_, [], [f.command], hstep, ?_, rfl⟩
        exact ih (fun r' h => hr r' (List.mem_cons_of_mem _ h))
          ((p.tryReadingStuff_append r.ready).trans hcut) hl (by omega)

/-- A frame that does not fit `pty_buf` is never used up. -/
theorem run_stuck (hf : f.payload.length < payloadMax) (hbig : ptyBufSize < f.wire.length)
    {reads : List ReadFrames} {p : Pty} {cmds : List Command}
    (hr : run Pty.readFrames ⟨f.wire, []⟩ reads = .ok (p, cmds)) : p.input ≠ [] := by
  have hinv : p.buf ++ p.input = f.wire ∧ p.buf.length ≤ ptyBufSize := by
    refine run_invariant (I := fun p => p.buf ++ p.input = f.wire ∧ p.buf.length ≤ ptyBufSize)
      ?_ ⟨rfl, Nat.zero_le _⟩ hr
    intro p r p' o hx h
    obtain ⟨hcut, hle⟩ := hx
    have hcut' := (p.tryReadingStuff_append r.ready).trans hcut
    have hle' : (p.tryReadingStuff r.ready).buf.length ≤ ptyBufSize := by
      rw [Pty.tryReadingStuff, List.length_append, List.length_take]
      omega
    have hleft : (p.tryReadingStuff r.ready).input ≠ [] := by
      intro hl
      rw [hl, List.append_nil] at hcut'
      rw [hcut'] at hle'
      omega
    rw [readFrames_part hf hcut r hleft] at h
    cases h
    exact ⟨hcut', hle'⟩
  intro hl
  rw [hl, List.append_nil] at hinv
  rw [hinv.1] at hinv
  omega

end FrameT

/-- `ostric` does not understand a payload of 64 bytes: the mask of the
length byte leaves nothing of it. -/
theorem ostric_misses_full_payload : ¬∀ f : FrameT, f.Understood := by
  intro h
  have hrun := h ⟨.sric, 2, .null, List.replicate payloadMax 0, by decide⟩
    (List.replicate 140 ⟨ptyBufSize, List.replicate ptyBufSize 0⟩)
    (fun r hr => List.eq_of_mem_replicate hr ▸ by decide) (by decide +kernel)
  obtain ⟨r, hr, hnone⟩ := ok_of_any (r := run Pty.readFrames
    ⟨(⟨.sric, 2, .null, List.replicate payloadMax 0, by decide⟩ : FrameT).wire, []⟩
    (List.replicate 140 ⟨ptyBufSize, List.replicate ptyBufSize 0⟩))
    (p := fun r => r.2.isEmpty) (by decide +kernel)
  cases hrun.symm.trans hr
  cases hnone

/-- **What `ostric` understands** of the daemon's frames: those whose
length survives the mask and whose encoding fits `pty_buf`. -/
theorem ostric_understands_iff (f : FrameT) :
    f.Understood ↔ f.payload.length < payloadMax ∧ f.wire.length ≤ ptyBufSize := by
  have h6 : sricOverhead = 6 := rfl
  constructor
  · intro hund
    -- one byte a read
    obtain ⟨r, hready, htmp⟩ : ∃ r : ReadFrames, 0 < r.ready ∧ r.tmp.length = ptyBufSize :=
      ⟨⟨1, List.replicate ptyBufSize 0⟩, Nat.one_pos, List.length_replicate ..⟩
    have hrun := hund (List.replicate f.wire.length r)
      (fun r' h => List.eq_of_mem_replicate h ▸ ⟨hready, htmp⟩)
      (Nat.le_of_eq (List.length_replicate ..).symm)
    have hf : f.payload.length < payloadMax := by
      have hout := run_outputs_along (I := fun _ => True) (C := fun _ _ => True)
        (P := fun c : Command => c.buffer.length < sricOverhead + payloadMax)
        (fun p r p' o _ _ h => by
          cases h
          exact ⟨trivial, tryParsingStuff_length _ _⟩) trivial
        (along_of_forall fun _ _ => trivial) hrun
      have := hout f.command (List.mem_singleton_self _)
      have hb : f.command.buffer = f.bytes := by
        rw [FrameT.command]
        cases f.type <;> rfl
      rw [hb, f.bytes_length] at this
      omega
    refine ⟨hf, Nat.le_of_not_lt ?_⟩
    intro hbig
    exact FrameT.run_stuck hf hbig hrun rfl
  · intro hx reads hr hlen
    obtain ⟨hf, hfit⟩ := hx
    exact FrameT.run_reads hf hfit (fun r h => (hr r h).1) rfl (List.cons_ne_nil _ _) hlen

end Sricd
