import Sricd.Callbacks
import Sricd.Reception
import Sricd.TokenRing

/-!
# Replies from the simulated bus

`ostric` has an encoder of its own, `send_msg`, with its own buffer. What it
writes for messages that a frame has room for are the same bytes as those
of a frame on the bus, so that the daemon receives the messages, whatever
reads they arrive in (`rx_receives_replies`).
-/

namespace Sricd

open Sricd.Lib

/-! ## Frames that pass the checks -/

/-- A whole frame passes the checks of `rx`. -/
theorem IsFrame.checkFrame {f : List Byte} (h : IsFrame f) : Rx.checkFrame f = some f := by
  obtain ⟨type, dest, src, len, payload, lo, hi, rfl, hp, hcrc⟩ := h
  have h4 : sricHeaderSize = 4 := rfl
  have h4' : sricData = 4 := rfl
  have h6 : sricOverhead = 6 := rfl
  have hhead : ([type, dest, src, len] ++ payload).length = sricHeaderSize + len.toNat := by
    simp only [List.length_append, List.length_cons, List.length_nil]
    omega
  have hlen : ([type, dest, src, len] ++ payload ++ [lo, hi]).length
      = sricOverhead + len.toNat := by
    rw [List.length_append, hhead]
    simp only [List.length_cons, List.length_nil]
    omega
  have hcode : ([type, dest, src, len] ++ payload ++ [lo, hi]).getD sricLen 0 = len := rfl
  have hget : ∀ i, ([type, dest, src, len] ++ payload ++ [lo, hi]).getD
      (sricData + len.toNat + i) 0 = [lo, hi].getD i 0 := by
    intro i
    rw [h4', ← h4, ← hhead]
    exact getD_behind _ _ i
  rw [Rx.checkFrame, if_neg (by omega), hcode]
  simp only [hlen]
  rw [if_neg (Nat.lt_irrefl _), List.take_left' hhead, hget 1,
    ← Nat.add_zero (sricData + len.toNat), hget 0, if_neg, List.take_of_length_le (by omega)]
  rw [not_not, hcrc]
  exact (recvCrc_eq lo hi).symm

/-- No part of it does. -/
theorem IsFrame.part {f v w : List Byte} (h : IsFrame f) (hf : f = v ++ w) (hw : w ≠ []) :
    Rx.checkFrame v = none := by
  rcases Option.eq_none_or_eq_some (Rx.checkFrame v) with hv | ⟨g, hv⟩
  · exact hv
  · -- it would be the whole frame
    have hg : Rx.checkFrame f = some g := by
      rw [hf]
      exact checkFrame_append hv w
    obtain rfl := Option.some.inj (h.checkFrame.symm.trans hg)
    have hle := (checkFrame_isFrame hv).2.length_le
    have hpos := List.length_pos_iff.mpr hw
    rw [hf, List.length_append] at hle
    omega

theorem IsFrame.carries {f : List Byte} (h : IsFrame f) (hflag : isFramingByte (f.headD 0) = true)
    (hlen : f.length ≤ sricOverhead + payloadMax) :
    sricDeframer.Carries (f.headD 0) f.tail f := by
  have hcons : f = f.headD 0 :: f.tail := by
    obtain ⟨type, dest, src, len, payload, lo, hi, rfl, -⟩ := h
    rfl
  have hpos : 6 ≤ f.length := by
    obtain ⟨type, dest, src, len, payload, lo, hi, rfl, -⟩ := h
    simp only [List.length_append, List.length_cons, List.length_nil]
    omega
  have htail : f.tail.length = f.length - 1 := List.length_tail
  refine ⟨hflag, ?_, ?_, ?_, ?_⟩
  · have h70 : sricDeframer.cap = sricOverhead + payloadMax := rfl
    rw [h70]
    omega
  · intro p q hpq _ hq
    exact h.part (by rw [hcons, hpq]; rfl) hq
  · rw [← hcons]
    exact h.checkFrame
  · apply List.length_pos_iff.mp
    omega

/-! ## What is sent -/

/-- What `send_msg` is called with. -/
structure Message where
  src : Byte
  dst : Byte
  data : List Byte
  data_le : data.length ≤ payloadMax

namespace Message

/-- The bytes that are written. -/
def sent (m : Message) : List Byte := sendMsg m.src m.dst m.data

/-- The frame that they stand for. -/
def bytes (m : Message) : List Byte := frameBytes m.dst (m.src &&& 0x7F) m.data

/-- What the daemon sees of it. -/
def packed (m : Message) : PackedFrame := ⟨m.dst, m.src &&& 0x7F, m.data⟩

variable (m : Message)

theorem bytes_length : m.bytes.length = sricOverhead + m.data.length := by
  have h6 : sricOverhead = 6 := rfl
  simp only [bytes, frameBytes, List.length_append, List.length_cons, List.length_nil]
  omega

theorem bytes_isFrame : IsFrame m.bytes := by
  have hle := m.data_le
  have h64 : payloadMax = 64 := rfl
  refine ⟨0x7E, m.dst, m.src &&& 0x7F, BitVec.ofNat 8 m.data.length, m.data, _, _, rfl, ?_, ?_⟩
  · rw [BitVec.toNat_ofNat]
    omega
  · rw [← recvCrc_eq, crc_bytes]

theorem carries : sricDeframer.Carries 0x7E m.bytes.tail m.bytes :=
  m.bytes_isFrame.carries rfl (by rw [m.bytes_length]; exact Nat.add_le_add_left m.data_le _)

/-- **What `send_msg` writes** is the frame on the line. -/
theorem sent_wire : m.sent = sricDeframer.wire 0x7E m.bytes.tail := by
  have hle := m.data_le
  have h64 : payloadMax = 64 := rfl
  have h6 : sricOverhead = 6 := rfl
  have htail : m.bytes.tail.length = 5 + m.data.length := by
    rw [List.length_tail, m.bytes_length]
    omega
  have hstuff := sricStuffing.stuff_length_le m.bytes.tail
  have htake : (writeAt (List.replicate 255 0) 0 m.bytes.tail).take (5 + m.data.length)
      = m.bytes.tail := by
    rw [take_writeAt (Nat.zero_le _) (by omega), List.take_zero, List.nil_append]
  have hfit : (sricStuffing.stuff ((writeAt (List.replicate 255 0) 0 m.bytes.tail).take
      (5 + m.data.length))).length < 255 := by
    rw [htake]
    omega
  have hesc := escapeFrame_stuff hfit
  rw [htake] at hesc
  have hsent : m.sent = 0x7E :: (writeAt (writeAt (List.replicate 255 0) 0 m.bytes.tail) 0
      (sricStuffing.stuff m.bytes.tail)).take (sricStuffing.stuff m.bytes.tail).length := by
    rw [sent, sendMsg]
    erw [hesc]
  rw [hsent, take_writeAt (Nat.zero_le _) (Nat.zero_add _).symm, List.take_zero, List.nil_append]
  rfl

/-- The fields of the frame. -/
theorem packed_bytes : PackedFrame.ofBytes m.bytes = m.packed := by
  have hle := m.data_le
  have h64 : payloadMax = 64 := rfl
  have hlen : (m.bytes.getD sricLen 0).toNat = m.data.length := by
    show (BitVec.ofNat 8 m.data.length : Byte).toNat = m.data.length
    rw [BitVec.toNat_ofNat]
    omega
  have hpayload : (m.bytes.drop sricData).take m.data.length = m.data := List.take_left
  rw [PackedFrame.ofBytes, hlen, hpayload]
  rfl

end Message

/-- `emit_ack` and `emit_data_ack`. -/
def Message.ack (src dst : Byte) (data : List Byte) (h : data.length ≤ payloadMax) : Message :=
  ⟨src, dst ||| 0x80, data, h⟩

theorem Message.ack_isAck (src dst : Byte) (data : List Byte) (h : data.length ≤ payloadMax) :
    (ack src dst data h).packed.isAck = true := by
  have hbit : ∀ b : Byte, ((b ||| 0x80) &&& 0x80 != 0) = true := by decide
  exact hbit dst

/-- The bytes are those of an ack for `dst`. -/
def EmittedAck (dst : Byte) (bytes : List Byte) : Prop :=
  ∃ src data, ∃ h : data.length ≤ payloadMax, bytes = (Message.ack src dst data h).sent

theorem emittedAck_emitAck (src dst : Byte) : EmittedAck dst (emitAck src dst) :=
  ⟨src, [], by decide, rfl⟩

theorem emittedAck_emitDataAck (src dst b : Byte) : EmittedAck dst (emitDataAck src dst [b]) :=
  ⟨src, [b], Nat.le_add_left 1 63, rfl⟩

/-- What a client writes in answer to a message is for its sender. -/
theorem OstricClient.genericMsg_acks (c : OstricClient) (buffer : List Byte) :
    ∀ o ∈ (c.genericMsg buffer).2, EmittedAck (buffer.getD 2 0 &&& 0x7F) o := by
  intro o ho
  simp only [genericMsg] at ho
  split at ho
  · cases ho
  · split at ho
    · cases ho
    · rw [List.mem_singleton.mp ho]
      exact emittedAck_emitAck ..
    · split at ho
      · cases ho
      · rw [List.mem_singleton.mp ho]
        exact emittedAck_emitAck ..
    · rw [List.mem_singleton.mp ho]
      exact emittedAck_emitDataAck ..
    · cases ho

namespace OstricBus

/-- What the gateway writes in answer to a command. -/
theorem gatewayCommand_acks (s : OstricBus) (buffer : List Byte) :
    ∀ o ∈ (s.gatewayCommand buffer).2, EmittedAck (buffer.getD 2 0) o := by
  intro o ho
  simp only [gatewayCommand] at ho
  split at ho
  · cases ho
  · split at ho
    · split at ho
      · cases ho
      · rw [List.mem_singleton.mp ho]
        exact emittedAck_emitAck ..
    · rw [List.mem_singleton.mp ho]
      exact emittedAck_emitAck ..
    · rw [List.mem_singleton.mp ho]
      exact emittedAck_emitDataAck ..
    · rw [List.mem_singleton.mp ho]
      exact emittedAck_emitAck ..
    · cases ho

/-- What the clients write in answer to a message. -/
theorem busCommand_acks (s : OstricBus) (buffer : List Byte) :
    ∀ o ∈ (s.busCommand buffer).2, EmittedAck (buffer.getD 2 0 &&& 0x7F) o := by
  intro o ho
  obtain ⟨r, hr, ho⟩ := List.mem_flatMap.mp ho
  obtain ⟨c, -, rfl⟩ := List.mem_map.mp hr
  exact c.genericMsg_acks buffer o ho

theorem step_acks {s t : OstricBus} {ev : Event} {out : List (List Byte)}
    (h : s.step ev = .ok (t, out)) : ∀ o ∈ out, ∃ dst, EmittedAck dst o := by
  intro o ho
  cases ev with
  | command c =>
      cases c with
      | gateway buffer =>
          obtain rfl : (s.gatewayCommand buffer).2 = out := congrArg Prod.snd (Except.ok.inj h)
          exact ⟨_, s.gatewayCommand_acks buffer o ho⟩
      | bus buffer =>
          obtain rfl : (s.busCommand buffer).2 = out := congrArg Prod.snd (Except.ok.inj h)
          exact ⟨_, s.busCommand_acks buffer o ho⟩
  | advance =>
      obtain rfl : [] = out := congrArg Prod.snd (Except.ok.inj h)
      cases ho

end OstricBus

/-- Acks, as a list of messages. -/
theorem messages_of_acks {out : List (List Byte)} {D : Byte → Prop}
    (h : ∀ o ∈ out, ∃ dst, D dst ∧ EmittedAck dst o) :
    ∃ ms : List Message, out = ms.map Message.sent
      ∧ ∀ m ∈ ms, m.packed.isAck = true ∧ ∃ dst, D dst ∧ m.dst = dst ||| 0x80 := by
  induction out with
  | nil => exact ⟨[], rfl, fun m hm => absurd hm List.not_mem_nil⟩
  | cons o out ih =>
      obtain ⟨dst, hdst, src, data, hlen, rfl⟩ := h o List.mem_cons_self
      obtain ⟨ms, rfl, hms⟩ := ih fun o ho => h o (List.mem_cons_of_mem _ ho)
      refine ⟨.ack src dst data hlen :: ms, rfl, List.forall_mem_cons.mpr ⟨⟨?_, dst, hdst, rfl⟩, hms⟩⟩
      exact Message.ack_isAck ..

/-! ## What is received -/

/-- Messages, read in any pieces. -/
theorem rx_hears (ms : List Message) {chunks : List (List Byte)} {rest : List Byte}
    (hs : chunks.flatten ++ rest = (ms.map Message.sent).flatten)
    (hfit : Along rx Fits Rx.init chunks) :
    ∃ st n, run rx Rx.init chunks = .ok (st, (ms.take n).map Message.bytes)
      ∧ n ≤ ms.length ∧ ((ms.take n).map Message.sent).flatten.length ≤ chunks.flatten.length
      ∧ (n < ms.length → chunks.flatten.length
          < ((ms.take (n + 1)).map Message.sent).flatten.length) := by
  have hwire : Message.sent = fun m => sricDeframer.wire 0x7E m.bytes.tail :=
    funext Message.sent_wire
  have hcalm : sricStuffing.Calm ([] ++ chunks.flatten ++ rest) := by
    rw [List.nil_append, hs, hwire]
    exact Deframer.calm_wires (D := sricDeframer) (fun _ => 0x7E)
      (fun m : Message => m.bytes.tail) fun m _ => m.carries.nonempty
  obtain ⟨st, fs, hrun, hd, hu⟩ := deframed_run_calm deframed_init (.inl rfl) hcalm hfit
  rw [hwire] at hs ⊢
  obtain ⟨n, hn, hfr, hle, hlt⟩ :=
    Deframer.feed_frames_prefix (D := sricDeframer) (fun _ => 0x7E) (fun m : Message => m.bytes.tail)
      Message.bytes (fun m _ => m.carries) hs (s := .hunt) rfl
  have hfs := hd.frames hu
  rw [List.nil_append, List.nil_append, Deframer.frames, hfr] at hfs
  exact ⟨st, n, by rw [hrun, hfs], hn, hle, hlt⟩

/-- **What the simulated bus writes is received**: in any run of it, with
any number of clients, everything that it writes is acks, and however the
daemon reads them it gets each one, unchanged and in order, once its last
byte has been read. -/
theorem rx_receives_replies {n : Nat} {evs : List OstricBus.Event} {s : OstricBus}
    {out : List (List Byte)} (hr : run OstricBus.step (OstricBus.init n) evs = .ok (s, out)) :
    ∃ ms : List Message, out = ms.map Message.sent ∧ (∀ m ∈ ms, m.packed.isAck = true)
      ∧ ∀ chunks rest, chunks.flatten ++ rest = out.flatten → Along rx Fits Rx.init chunks →
        ∃ st fs k, run rx Rx.init chunks = .ok (st, fs)
          ∧ fs.map PackedFrame.ofBytes = (ms.take k).map Message.packed
          ∧ k ≤ ms.length ∧ (out.take k).flatten.length ≤ chunks.flatten.length
          ∧ (k < ms.length → chunks.flatten.length < (out.take (k + 1)).flatten.length) := by
  have hacks : ∀ o ∈ out, ∃ dst, EmittedAck dst o :=
    run_outputs_along (I := fun _ => True) (C := fun _ _ => True)
      (fun s ev s' o _ _ hs => ⟨trivial, OstricBus.step_acks hs⟩) trivial
      (along_of_forall fun _ _ => trivial) hr
  obtain ⟨ms, rfl, hms⟩ := messages_of_acks (D := fun _ => True) (by simpa using hacks)
  refine ⟨ms, rfl, fun m hm => (hms m hm).1, ?_⟩
  intro chunks rest hs hfit
  obtain ⟨st, k, hrun, hk, hle, hlt⟩ := rx_hears ms hs hfit
  rw [List.map_take] at hle hlt
  refine ⟨st, _, k, hrun, ?_, hk, hle, hlt⟩
  rw [List.map_map]
  exact List.map_congr_left fun m _ => m.packed_bytes

/-- Two clients ack a broadcast, and the gateway a command. The second read
ends within the second ack. -/
theorem rx_receives_replies_two_clients :
    ∃ s out, run OstricBus.step (OstricBus.init 2) [.command (sendTokAdvance 0).command, .advance,
        .command gwCmdHaveToken.command] = .ok (s, out)
      ∧ ∃ ms : List Message, out = ms.map Message.sent ∧ ∃ st fs k,
        run rx Rx.init [[0x7E, 0x81, 0x7F], [0x00, 0x97, 0xEB, 0x7E, 0x81]] = .ok (st, fs)
          ∧ fs.map PackedFrame.ofBytes = (ms.take k).map Message.packed := by
  obtain ⟨⟨s, out⟩, hr, hp⟩ := ok_of_any (r := run OstricBus.step (OstricBus.init 2)
      [.command (sendTokAdvance 0).command, .advance, .command gwCmdHaveToken.command])
    (p := fun p => decide ([[0x7E, 0x81, 0x7F], [0x00, 0x97, 0xEB, 0x7E, 0x81]].flatten
      ++ [0x7F, 0x00, 0x97, 0xEB, 0x7E, 0x81, 0x01, 0x01, 0x00, 0x8B, 0x99] = p.2.flatten))
    (by decide +kernel)
  obtain ⟨ms, hms, -, h⟩ := rx_receives_replies hr
  obtain ⟨st, fs, k, hrun, hfs, -⟩ := h _ _ (of_decide_eq_true hp) (by decide +kernel)
  exact ⟨s, out, hr, ms, hms, st, fs, k, hrun, hfs⟩

end Sricd
