import Mathlib.Data.List.Forall2
import Sricd.Lib.MainLoop
import Sricd.Lib.Run
import Sricd.Rx

/-!
# `trumpets`

The program that stands between the daemon and the bus and flips bits. Each
of its two channels has a buffer, which its own callback fills and the
other's drains. Every byte is relayed, once and in order, with one bit
flipped at most, and none is left behind (`trumpets_relays`).
-/

namespace Sricd

open Sricd.Lib

/-! ## The channels -/

/-- `tty_channel` and `pty_channel`. -/
inductive Channel where
  | tty
  | pty
deriving DecidableEq, Repr

/-- `target_channel`. -/
def Channel.target : Channel → Channel
  | .tty => .pty
  | .pty => .tty

@[simp] theorem Channel.target_target (c : Channel) : c.target.target = c := by cases c <;> rfl

theorem Channel.target_ne (c : Channel) : c.target ≠ c := by cases c <;> decide

/-- A channel is this one or the other. -/
theorem Channel.eq_or_target (c d : Channel) : d = c ∨ d = c.target := by
  cases c <;> cases d <;> decide

/-- `sizeof (c->buffer)`. -/
abbrev trumpetBufSize : Nat := 256

/-- `struct trumpet_channel`. -/
structure TrumpetChannel where
  buffer : List Byte
  rxpos : Nat
  txWatchId : Nat

/-- What is in the buffer. -/
def TrumpetChannel.held (c : TrumpetChannel) : List Byte := c.buffer.take c.rxpos

/-- The watches: `rx_data` or `tx_data` of a channel. -/
inductive TrumpetSource where
  | rx (c : Channel)
  | tx (c : Channel)
deriving DecidableEq, Repr

structure Trumpets where
  loop : MainLoop TrumpetSource
  channels : Channel → TrumpetChannel

/-- What `read` returns: the bytes it has read, none at the end, or an
error. -/
inductive ReadResult where
  | bytes (data : List Byte)
  | again
  | failed

/-- A call of one of the callbacks, of the watch with the given id, with
what `read` or `write` returns, and with what `rand` does. -/
inductive TrumpetEvent where
  | rx (id : Nat) (c : Channel) (ret : ReadResult) (rand : Nat → Nat)
  | tx (id : Nat) (c : Channel) (ret : Option Nat)

/-- What `write` has taken on a channel. -/
structure TrumpetOut where
  c : Channel
  bytes : List Byte

/-- The loop of `rx_data` over the bytes that were read: `rand` has been
called `k` times. -/
def insertErrors (randModulus : Int) (rand : Nat → Nat) : Nat → List Byte → List Byte
  | _, [] => []
  | k, b :: bs =>
      if (rand k : Int).tmod randModulus = 0 then
        -- insert a one bit error
        (b ^^^ 1#8 <<< (rand (k + 1) % 8)) :: insertErrors randModulus rand (k + 2) bs
      else b :: insertErrors randModulus rand (k + 1) bs

namespace Trumpets

/-- Behind the start of `main`. -/
def init : Trumpets where
  loop := (MainLoop.empty.add (.rx .tty)).add (.rx .pty)
  channels _ := ⟨List.replicate trumpetBufSize 0, 0, 0⟩

def setChannel (s : Trumpets) (c : Channel) (ch : TrumpetChannel) : Trumpets :=
  { s with channels := Function.update s.channels c ch }

@[simp] theorem setChannel_self (s : Trumpets) (c : Channel) (ch : TrumpetChannel) :
    (s.setChannel c ch).channels c = ch := Function.update_self ..

theorem setChannel_of_ne (s : Trumpets) {c d : Channel} (h : d ≠ c) (ch : TrumpetChannel) :
    (s.setChannel c ch).channels d = s.channels d := Function.update_of_ne h ..

@[simp] theorem setChannel_loop (s : Trumpets) (c : Channel) (ch : TrumpetChannel) :
    (s.setChannel c ch).loop = s.loop := rfl

/-- The end of `rx_data`: a write event for the other channel. -/
def wake (s : Trumpets) (target : Channel) : Trumpets :=
  if (s.channels target).txWatchId = 0 then
    { s with loop := s.loop.add (.tx target) }.setChannel target
      { s.channels target with txWatchId := s.loop.nextId }
  else s

/-- `rx_data`. `read` returns no more than it is asked for. -/
def rxData (randModulus : Int) (s : Trumpets) (c : Channel) (rand : Nat → Nat) :
    ReadResult → Except Halt (Trumpets × List TrumpetOut)
  | .again => .ok (s, [])
  | .failed => .error .exit
  | .bytes data =>
      let ch := s.channels c
      if trumpetBufSize - ch.rxpos < data.length then .error .disabled
      else if data = [] ∧ ch.rxpos ≠ trumpetBufSize then .error .exit
      else
        let buffer := writeAt ch.buffer ch.rxpos (insertErrors randModulus rand 0 data)
        let s := s.setChannel c { ch with buffer, rxpos := ch.rxpos + data.length }
        .ok (s.wake c.target, [])

/-- `tx_data`. `write` takes no more than it is given. -/
def txData (s : Trumpets) (id : Nat) (c : Channel) :
    Option Nat → Except Halt (Trumpets × List TrumpetOut)
  | none => .error .exit
  | some ret =>
      let source := s.channels c.target
      if source.rxpos < ret then .error .disabled
      else
        let out := [⟨c, source.buffer.take ret⟩]
        -- shift data over what was just written out
        let buffer := writeAt source.buffer 0 ((source.buffer.drop ret).take (source.rxpos - ret))
        let s := s.setChannel c.target { source with buffer, rxpos := source.rxpos - ret }
        if source.rxpos - ret = 0 then
          .ok ({ s with loop := s.loop.remove id }.setChannel c
            { s.channels c with txWatchId := 0 }, out)
        else .ok (s, out)

/-- One callback, of a watch that is registered. -/
def step (randModulus : Int) (s : Trumpets) :
    TrumpetEvent → Except Halt (Trumpets × List TrumpetOut)
  | .rx id c ret rand =>
      if (id, .rx c) ∈ s.loop.live then s.rxData randModulus c rand ret else .error .disabled
  | .tx id c ret =>
      if (id, .tx c) ∈ s.loop.live then s.txData id c ret else .error .disabled

end Trumpets

/-! ## Bits -/

/-- The bytes differ in one bit at most. -/
def OneBit (a b : Byte) : Prop := ∃ k, ∀ j, j ≠ k → a.getLsbD j = b.getLsbD j

theorem OneBit.refl (a : Byte) : OneBit a a := ⟨0, fun _ _ => rfl⟩

theorem OneBit.flip (a : Byte) (k : Nat) : OneBit a (a ^^^ 1#8 <<< k) := by
  refine ⟨k, fun j hj => ?_⟩
  have hbit : (1#8 <<< k).getLsbD j = false := by
    rw [BitVec.getLsbD_shiftLeft, BitVec.getLsbD_one]
    simp
    omega
  rw [BitVec.getLsbD_xor, hbit, Bool.xor_false]

/-- Errors are inserted into bytes, and none is lost. -/
theorem insertErrors_oneBit (randModulus : Int) (rand : Nat → Nat) (k : Nat) (data : List Byte) :
    List.Forall₂ OneBit data (insertErrors randModulus rand k data) := by
  induction data generalizing k with
  | nil => exact .nil
  | cons b bs ih =>
      rw [insertErrors]
      split
      · exact .cons (.flip b _) (ih _)
      · exact .cons (.refl b) (ih _)

/-! ## What has passed through -/

/-- What has been read on a channel. -/
def readOn (c : Channel) : List TrumpetEvent → List Byte
  | [] => []
  | .rx _ c' (.bytes data) _ :: evs => if c' = c then data ++ readOn c evs else readOn c evs
  | _ :: evs => readOn c evs

/-- What has been written on a channel. -/
def writtenOn (c : Channel) (outs : List TrumpetOut) : List Byte :=
  (outs.filter fun out => out.c == c).flatMap TrumpetOut.bytes

/-- How many bytes `write` has taken on a channel, by what it has returned. -/
def takenOn (c : Channel) : List TrumpetEvent → Nat
  | [] => 0
  | .tx _ c' (some ret) :: evs => (if c' = c then ret else 0) + takenOn c evs
  | _ :: evs => takenOn c evs

theorem takenOn_cons (c : Channel) (ev : TrumpetEvent) (evs : List TrumpetEvent) :
    takenOn c (ev :: evs) = takenOn c [ev] + takenOn c evs := by
  cases ev with
  | rx => exact (Nat.zero_add _).symm
  | tx id c' ret =>
      cases ret with
      | none => exact (Nat.zero_add _).symm
      | some ret => rfl

theorem writtenOn_append (c : Channel) (outs outs' : List TrumpetOut) :
    writtenOn c (outs ++ outs') = writtenOn c outs ++ writtenOn c outs' := by
  rw [writtenOn, List.filter_append, List.flatMap_append]
  rfl

namespace Trumpets

/-- What holds of the channels, where `read` and `written` have passed
through each of them. -/
structure Relays (s : Trumpets) (read written : Channel → List Byte) : Prop where
  size : ∀ c, (s.channels c).buffer.length = trumpetBufSize
  room : ∀ c, (s.channels c).rxpos ≤ trumpetBufSize
  relayed : ∀ c, List.Forall₂ OneBit (read c) (written c.target ++ (s.channels c).held)
  watched : ∀ c, (s.channels c).txWatchId ≠ 0 →
    ((s.channels c).txWatchId, .tx c) ∈ s.loop.live
  drained : ∀ c, (s.channels c).rxpos ≠ 0 → (s.channels c.target).txWatchId ≠ 0

theorem relays_init : Relays init (fun _ => []) (fun _ => []) where
  size _ := List.length_replicate
  room _ := Nat.zero_le _
  relayed _ := .nil
  watched _ h := absurd rfl h
  drained _ h := absurd rfl h

/-- A write watch is added where there is none. -/
theorem wake_channels (s : Trumpets) (target d : Channel) :
    ((s.wake target).channels d).buffer = (s.channels d).buffer
      ∧ ((s.wake target).channels d).rxpos = (s.channels d).rxpos := by
  rw [wake]
  split
  · by_cases hd : d = target
    · subst hd
      rw [setChannel_self]
      exact ⟨rfl, rfl⟩
    · rw [setChannel_of_ne _ hd]
      exact ⟨rfl, rfl⟩
  · exact ⟨rfl, rfl⟩

theorem wake_watched {s : Trumpets} (target : Channel) (h : ∀ c, (s.channels c).txWatchId ≠ 0 →
    ((s.channels c).txWatchId, .tx c) ∈ s.loop.live) :
    (∀ c, ((s.wake target).channels c).txWatchId ≠ 0 →
      (((s.wake target).channels c).txWatchId, .tx c) ∈ (s.wake target).loop.live)
    ∧ ((s.wake target).channels target).txWatchId ≠ 0
    ∧ ∀ c, (s.channels c).txWatchId ≠ 0 → ((s.wake target).channels c).txWatchId ≠ 0 := by
  rw [wake]
  by_cases h0 : (s.channels target).txWatchId = 0
  · rw [if_pos h0]
    refine ⟨?_, ?_, ?_⟩
    · intro c hc
      rw [setChannel_loop, MainLoop.mem_add]
      by_cases hct : c = target
      · subst hct
        rw [setChannel_self]
        exact .inr rfl
      · rw [setChannel_of_ne _ hct] at hc ⊢
        exact .inl (h c hc)
    · rw [setChannel_self]
      exact s.loop.nextId_ne_zero
    · intro c hc
      by_cases hct : c = target
      · subst hct
        exact absurd h0 hc
      · rw [setChannel_of_ne _ hct]
        exact hc
  · rw [if_neg h0]
    exact ⟨h, h0, fun _ hc => hc⟩

/-- What `rx_data` has read fits into the buffer. -/
theorem rxData_bytes {randModulus : Int} {s s' : Trumpets} {c : Channel} {rand : Nat → Nat}
    {data : List Byte} {outs : List TrumpetOut}
    (hs : s.rxData randModulus c rand (.bytes data) = .ok (s', outs)) :
    data.length ≤ trumpetBufSize - (s.channels c).rxpos ∧ outs = []
    ∧ s' = (s.setChannel c ⟨writeAt (s.channels c).buffer (s.channels c).rxpos
        (insertErrors randModulus rand 0 data), (s.channels c).rxpos + data.length,
        (s.channels c).txWatchId⟩).wake c.target := by
  rw [rxData] at hs
  dsimp only at hs
  split at hs
  · cases hs
  rename_i hfit
  split at hs
  · cases hs
  obtain ⟨rfl, rfl⟩ := Prod.mk.inj (Except.ok.inj hs)
  exact ⟨Nat.le_of_not_lt hfit, rfl, rfl⟩

/-- `rx_data` puts what it has read behind what is in the buffer. -/
theorem Relays.rxData {randModulus : Int} {s s' : Trumpets} {c : Channel} {rand : Nat → Nat}
    {ret : ReadResult} {outs : List TrumpetOut} {read written : Channel → List Byte}
    (h : s.Relays read written) (id : Nat)
    (hs : s.rxData randModulus c rand ret = .ok (s', outs)) :
    s'.Relays (fun d => read d ++ readOn d [.rx id c ret rand])
      (fun d => written d ++ writtenOn d outs) := by
  cases ret with
  | failed => cases hs
  | again =>
      cases hs
      simpa [readOn, writtenOn] using h
  | bytes data =>
      obtain ⟨hfit, rfl, rfl⟩ := rxData_bytes hs
      have herrors := insertErrors_oneBit randModulus rand 0 data
      have hlen := herrors.length_eq
      have hroom := h.room c
      generalize ht : s.setChannel c _ = t
      have hself : t.channels c = ⟨writeAt (s.channels c).buffer (s.channels c).rxpos
          (insertErrors randModulus rand 0 data), (s.channels c).rxpos + data.length,
          (s.channels c).txWatchId⟩ := by
        rw [← ht, setChannel_self]
      have hne : ∀ d, d ≠ c → t.channels d = s.channels d := by
        intro d hd
        rw [← ht, setChannel_of_ne _ hd]
      have hid : ∀ d, (t.channels d).txWatchId = (s.channels d).txWatchId := by
        intro d
        by_cases hd : d = c
        · rw [hd, hself]
        · rw [hne d hd]
      have hloop : t.loop = s.loop := by
        rw [← ht, setChannel_loop]
      obtain ⟨hwatched, hwoken, hkept⟩ := wake_watched (s := t) c.target (by
        intro d
        rw [hid, hloop]
        exact h.watched d)
      refine ⟨?_, ?_, ?_, hwatched, ?_⟩
      · intro d
        rw [(wake_channels t c.target d).1]
        by_cases hd : d = c
        · rw [hd, hself]
          exact (writeAt_length (by rw [h.size c]; omega)).trans (h.size c)
        · rw [hne d hd]
          exact h.size d
      · intro d
        rw [(wake_channels t c.target d).2]
        by_cases hd : d = c
        · rw [hd, hself]
          dsimp only
          omega
        · rw [hne d hd]
          exact h.room d
      · intro d
        rw [TrumpetChannel.held, (wake_channels t c.target d).1, (wake_channels t c.target d).2,
          writtenOn, List.filter_nil, List.flatMap_nil, List.append_nil]
        by_cases hd : d = c
        · subst hd
          rw [hself, readOn, if_pos rfl, readOn, List.append_nil]
          dsimp only
          rw [take_writeAt (by rw [h.size d]; exact hroom) (by rw [hlen]), ← List.append_assoc]
          exact List.rel_append (h.relayed d) herrors
        · rw [hne d hd, readOn, if_neg (Ne.symm hd), readOn, List.append_nil]
          exact h.relayed d
      · intro d hd
        rw [(wake_channels t c.target d).2] at hd
        by_cases hdc : d = c
        · rw [hdc]
          exact hwoken
        · rw [hne d hdc] at hd
          apply hkept
          rw [hid]
          exact h.drained d hd

/-- The buffers behind `tx_data`, and the watch, which goes with the last
byte. -/
theorem txData_ok {s s' : Trumpets} {id ret : Nat} {c : Channel} {outs : List TrumpetOut}
    (hs : s.txData id c (some ret) = .ok (s', outs)) :
    ret ≤ (s.channels c.target).rxpos
    ∧ outs = [⟨c, (s.channels c.target).buffer.take ret⟩]
    ∧ (s'.channels c.target).buffer = writeAt (s.channels c.target).buffer 0
        (((s.channels c.target).buffer.drop ret).take ((s.channels c.target).rxpos - ret))
    ∧ (s'.channels c.target).rxpos = (s.channels c.target).rxpos - ret
    ∧ (s'.channels c.target).txWatchId = (s.channels c.target).txWatchId
    ∧ ((s'.channels c).buffer = (s.channels c).buffer
      ∧ (s'.channels c).rxpos = (s.channels c).rxpos)
    ∧ ((s.channels c.target).rxpos - ret = 0 ∧ (s'.channels c).txWatchId = 0
        ∧ s'.loop = s.loop.remove id
      ∨ (s'.channels c).txWatchId = (s.channels c).txWatchId ∧ s'.loop = s.loop) := by
  rw [txData] at hs
  dsimp only at hs
  split at hs
  · cases hs
  rename_i hle
  split at hs
  · rename_i h0
    obtain ⟨rfl, rfl⟩ := Prod.mk.inj (Except.ok.inj hs)
    refine ⟨Nat.le_of_not_lt hle, rfl, ?_, ?_, ?_, ⟨?_, ?_⟩, .inl ⟨h0, ?_, ?_⟩⟩ <;> cases c <;> rfl
  · obtain ⟨rfl, rfl⟩ := Prod.mk.inj (Except.ok.inj hs)
    refine ⟨Nat.le_of_not_lt hle, rfl, ?_, ?_, ?_, ⟨?_, ?_⟩, .inr ⟨?_, ?_⟩⟩ <;> cases c <;> rfl

/-- What `tx_data` has written was in front of what is left. -/
theorem txData_held {s s' : Trumpets} {id ret : Nat} {c : Channel} {outs : List TrumpetOut}
    (hs : s.txData id c (some ret) = .ok (s', outs))
    (hroom : (s.channels c.target).rxpos ≤ (s.channels c.target).buffer.length) :
    (s.channels c.target).held
      = (s.channels c.target).buffer.take ret ++ (s'.channels c.target).held := by
  obtain ⟨hle, -, hbuf, hpos, -⟩ := txData_ok hs
  have hheld : (s'.channels c.target).held = ((s.channels c.target).buffer.drop ret).take
      ((s.channels c.target).rxpos - ret) := by
    rw [TrumpetChannel.held, hbuf, hpos, take_writeAt (Nat.zero_le _), List.take_zero,
      List.nil_append]
    rw [List.length_take, List.length_drop]
    omega
  rw [hheld, ← List.take_add, TrumpetChannel.held]
  congr 1
  omega

/-- `tx_data` takes what it has written from the front of the buffer. -/
theorem Relays.txData {s s' : Trumpets} {id : Nat} {c : Channel} {ret : Option Nat}
    {outs : List TrumpetOut} {read written : Channel → List Byte} (h : s.Relays read written)
    (hid : (id, .tx c) ∈ s.loop.live) (hs : s.txData id c ret = .ok (s', outs)) :
    s'.Relays (fun d => read d ++ readOn d [.tx id c ret])
      (fun d => written d ++ writtenOn d outs) := by
  have hct := c.target_ne
  cases ret with
  | none => cases hs
  | some ret =>
      have hroom := h.room c.target
      have hsize := h.size c.target
      have hall := txData_held hs (hsize ▸ hroom)
      obtain ⟨hle, rfl, hbuf, hpos, hother, hsame, hwatch⟩ := txData_ok hs
      have hread : ∀ d, read d ++ readOn d [TrumpetEvent.tx id c (some ret)] = read d :=
        fun d => List.append_nil _
      refine ⟨?_, ?_, ?_, ?_, ?_⟩
      · intro d
        rcases c.eq_or_target d with rfl | rfl
        · rw [hsame.1]
          exact h.size d
        · rw [hbuf]
          refine (writeAt_length ?_).trans hsize
          rw [List.length_take, List.length_drop]
          omega
      · intro d
        rcases c.eq_or_target d with rfl | rfl
        · rw [hsame.2]
          exact h.room d
        · rw [hpos]
          exact (Nat.sub_le _ _).trans hroom
      · intro d
        rw [hread]
        rcases c.eq_or_target d with rfl | rfl
        · rw [TrumpetChannel.held, hsame.1, hsame.2, writtenOn,
            List.filter_cons_of_neg (by simpa using Ne.symm hct), List.filter_nil,
            List.flatMap_nil, List.append_nil]
          exact h.relayed d
        · have hrelayed := h.relayed c.target
          rw [Channel.target_target] at hrelayed ⊢
          rw [writtenOn, List.filter_cons_of_pos (by simp), List.filter_nil, List.flatMap_cons,
            List.flatMap_nil, List.append_nil, List.append_assoc, ← hall]
          exact hrelayed
      · intro d hd
        rcases c.eq_or_target d with rfl | rfl
        · rcases hwatch with ⟨-, h0, -⟩ | ⟨hsameId, hloop⟩
          · exact absurd h0 hd
          · rw [hsameId] at hd ⊢
            rw [hloop]
            exact h.watched d hd
        · rw [hother] at hd ⊢
          have hlive := h.watched _ hd
          rcases hwatch with ⟨-, -, hloop⟩ | ⟨-, hloop⟩
          · rw [hloop, MainLoop.mem_remove]
            exact ⟨hlive, MainLoop.id_ne_of_kind hlive hid fun hx => hct (TrumpetSource.tx.inj hx)⟩
          · rw [hloop]
            exact hlive
      · intro d hd
        rcases c.eq_or_target d with rfl | rfl
        · rw [hsame.2] at hd
          rw [hother]
          exact h.drained d hd
        · rw [hpos] at hd
          rw [Channel.target_target]
          rcases hwatch with ⟨h0, -, -⟩ | ⟨hsameId, -⟩
          · exact absurd h0 hd
          · have hdrained := h.drained c.target (by omega)
            rw [Channel.target_target] at hdrained
            rw [hsameId]
            exact hdrained

/-- One callback. -/
theorem Relays.step {randModulus : Int} {s s' : Trumpets} {ev : TrumpetEvent}
    {outs : List TrumpetOut} {read written : Channel → List Byte} (h : s.Relays read written)
    (hs : s.step randModulus ev = .ok (s', outs)) :
    s'.Relays (fun d => read d ++ readOn d [ev]) (fun d => written d ++ writtenOn d outs) := by
  cases ev with
  | rx id c ret rand =>
      rw [Trumpets.step] at hs
      split at hs
      · exact h.rxData id hs
      · cases hs
  | tx id c ret =>
      rw [Trumpets.step] at hs
      split at hs
      · rename_i hid
        exact h.txData hid hs
      · cases hs

theorem readOn_cons (c : Channel) (ev : TrumpetEvent) (evs : List TrumpetEvent) :
    readOn c (ev :: evs) = readOn c [ev] ++ readOn c evs := by
  cases ev with
  | tx => rfl
  | rx id c' ret rand =>
      cases ret with
      | bytes data =>
          rw [readOn, readOn]
          split
          · rw [readOn, List.append_nil]
          · rfl
      | again => rfl
      | failed => rfl

/-- All callbacks of a run. -/
theorem Relays.run {randModulus : Int} {s t : Trumpets} {evs : List TrumpetEvent}
    {outs : List TrumpetOut} {read written : Channel → List Byte} (h : s.Relays read written)
    (hr : Lib.run (Trumpets.step randModulus) s evs = .ok (t, outs)) :
    t.Relays (fun d => read d ++ readOn d evs) (fun d => written d ++ writtenOn d outs) := by
  induction evs generalizing s outs read written with
  | nil =>
      cases hr
      simpa [readOn, writtenOn] using h
  | cons ev evs ih =>
      obtain ⟨s', o, os, hstep, hr', rfl⟩ := run_cons_ok.mp hr
      have := ih (h.step hstep) hr'
      simp only [List.append_assoc, ← writtenOn_append, ← readOn_cons] at this
      exact this

/-- As many bytes are written as `write` says. -/
theorem Relays.taken {randModulus : Int} {s s' : Trumpets} {ev : TrumpetEvent}
    {outs : List TrumpetOut} {read written : Channel → List Byte} (h : s.Relays read written)
    (hs : s.step randModulus ev = .ok (s', outs)) (d : Channel) :
    (writtenOn d outs).length = takenOn d [ev] := by
  cases ev with
  | rx id c ret rand =>
      rw [Trumpets.step] at hs
      split at hs
      · cases ret with
        | again =>
            cases hs
            rfl
        | failed => cases hs
        | bytes data =>
            obtain ⟨-, rfl, -⟩ := rxData_bytes hs
            rfl
      · cases hs
  | tx id c ret =>
      rw [Trumpets.step] at hs
      split at hs
      · cases ret with
        | none => cases hs
        | some ret =>
            obtain ⟨hle, rfl, -⟩ := txData_ok hs
            have hroom := h.room c.target
            rw [← h.size c.target] at hroom
            by_cases hc : c = d
            · subst hc
              simp [writtenOn, takenOn, Nat.min_eq_left (hle.trans hroom)]
            · simp [writtenOn, takenOn, hc]
      · cases hs

theorem Relays.taken_run {randModulus : Int} {s t : Trumpets} {evs : List TrumpetEvent}
    {outs : List TrumpetOut} {read written : Channel → List Byte} (h : s.Relays read written)
    (hr : Lib.run (Trumpets.step randModulus) s evs = .ok (t, outs)) (d : Channel) :
    (writtenOn d outs).length = takenOn d evs := by
  induction evs generalizing s outs read written with
  | nil =>
      cases hr
      rfl
  | cons ev evs ih =>
      obtain ⟨s', o, os, hstep, hr', rfl⟩ := run_cons_ok.mp hr
      rw [writtenOn_append, List.length_append, takenOn_cons, h.taken hstep d, ih (h.step hstep) hr']

end Trumpets

/-- **`trumpets` relays every byte**: on each channel, at every point of
every run, what has been read has been written to the other, in as many
bytes as `write` has taken, or is in the buffer, in order, each byte with
one bit flipped at most; and whatever is in the buffer, the other channel's
write watch is registered. -/
theorem trumpets_relays (randModulus : Int) {evs : List TrumpetEvent} {s : Trumpets}
    {outs : List TrumpetOut} (hr : run (Trumpets.step randModulus) .init evs = .ok (s, outs))
    (c : Channel) :
    List.Forall₂ OneBit (readOn c evs) (writtenOn c.target outs ++ (s.channels c).held)
      ∧ (writtenOn c.target outs).length = takenOn c.target evs
      ∧ (s.channels c).held.length = (s.channels c).rxpos
      ∧ (s.channels c).rxpos ≤ trumpetBufSize
      ∧ ((s.channels c).rxpos ≠ 0 →
        ((s.channels c.target).txWatchId, .tx c.target) ∈ s.loop.live) := by
  have h := Trumpets.relays_init.run hr
  have hrelayed := h.relayed c
  simp only [List.nil_append] at hrelayed
  refine ⟨hrelayed, Trumpets.relays_init.taken_run hr c.target, ?_, h.room c, fun h0 => h.watched _ (h.drained c h0)⟩
  rw [TrumpetChannel.held, List.length_take, h.size c]
  exact Nat.min_eq_left (h.room c)

/-- Two bytes are read, the first with an error, and one of them is
written. -/
theorem trumpets_relays_two :
    ∃ s outs, run (Trumpets.step 3) .init
        [.rx 1 .tty (.bytes [0x7E, 2]) fun k => if k = 0 then 3 else 1, .tx 3 .pty (some 1)]
        = .ok (s, outs)
      ∧ List.Forall₂ OneBit [0x7E, 2] (writtenOn .pty outs ++ (s.channels .tty).held)
      ∧ writtenOn .pty outs = [0x7C] ∧ (writtenOn .pty outs).length = 1 := by
  obtain ⟨⟨s, outs⟩, hr, hout⟩ := ok_of_any (r := run (Trumpets.step 3) .init
    [.rx 1 .tty (.bytes [0x7E, 2]) fun k => if k = 0 then 3 else 1, .tx 3 .pty (some 1)])
    (p := fun p => writtenOn .pty p.2 == [0x7C]) (by decide +kernel)
  have h := trumpets_relays 3 hr .tty
  exact ⟨s, outs, hr, h.1, beq_iff_eq.mp hout, h.2.1⟩

end Sricd
