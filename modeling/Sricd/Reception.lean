import Sricd.Deframing
import Sricd.Encoding

/-!
# Reception

What the receiver makes of whole streams, whatever reads they arrive in:
frames that the transmitter has built come through unchanged, and the
result does not depend on the reads, as long as none of them runs into a
slip of `advance_rx`.
-/

namespace Sricd

open Sricd.Lib

/-! ## Frames the transmitter has built -/

/-- The length byte of a frame, seen in any prefix that holds it. -/
theorem FrameT.len_of_prefix (f : FrameT) {v w : List Byte} (h : f.bytes = v ++ w)
    (hv : sricLen < v.length) : (v.getD sricLen 0).toNat = f.payload.length := by
  have hget : v.getD sricLen 0 = f.bytes.getD sricLen 0 := by
    simp only [h, List.getD_eq_getElem?_getD, List.getElem?_append_left hv]
  have hlen : f.bytes.getD sricLen 0 = BitVec.ofNat 8 f.payload.length := rfl
  have hp := f.payload_le
  have h64 : payloadMax = 64 := rfl
  rw [hget, hlen, BitVec.toNat_ofNat]
  omega

/-- The checks of `rx` pass on a frame that `next_tx` built. -/
theorem FrameT.checkFrame_bytes (f : FrameT) : Rx.checkFrame f.bytes = some f.bytes := by
  have h3 : sricLen = 3 := rfl
  have h4 : sricHeaderSize = 4 := rfl
  have h4' : sricData = 4 := rfl
  have h6 : sricOverhead = 6 := rfl
  have hl := f.bytes_length
  have hlen : (f.bytes.getD sricLen 0).toNat = f.payload.length :=
    f.len_of_prefix (List.append_nil _).symm (by omega)
  have hhead : f.bytes.take (sricHeaderSize + f.payload.length) = f.head := by
    rw [FrameT.bytes, List.take_left' f.head_length]
  have hcrc : ∀ i, f.bytes.getD (sricData + f.payload.length + i) 0
      = [(crc16 f.head).truncate 8, (crc16 f.head >>> 8).truncate 8].getD i (0 : Byte) := by
    intro i
    have hle : f.head.length ≤ sricData + f.payload.length + i := by
      rw [f.head_length]
      omega
    simp only [FrameT.bytes, List.getD_eq_getElem?_getD, List.getElem?_append_right hle]
    rw [f.head_length, show sricData + f.payload.length + i - (sricHeaderSize + f.payload.length) = i
      by omega]
  rw [Rx.checkFrame, if_neg (by omega), hlen]
  simp only [if_neg (show ¬f.bytes.length < sricOverhead + f.payload.length by omega)]
  rw [hhead, hcrc 1, show sricData + f.payload.length = sricData + f.payload.length + 0 from rfl,
    hcrc 0, if_neg, List.take_of_length_le (by omega)]
  simp only [List.getD_cons_zero, List.getD_cons_succ, not_not]
  exact (crc_bytes _).symm

/-- No part of a frame passes the checks of `rx`. -/
theorem FrameT.checkFrame_part (f : FrameT) {v w : List Byte} (h : f.bytes = v ++ w)
    (hw : w ≠ []) : Rx.checkFrame v = none := by
  have h3 : sricLen = 3 := rfl
  have h6 : sricOverhead = 6 := rfl
  by_cases hs : v.length < sricOverhead
  · exact checkFrame_short hs
  · have hlen := congrArg List.length h
    have hw0 := List.length_pos_iff.mpr hw
    rw [f.bytes_length, List.length_append] at hlen
    rw [Rx.checkFrame, if_neg hs, f.len_of_prefix h (by omega)]
    exact if_pos (by omega)

theorem FrameT.carries (f : FrameT) :
    sricDeframer.Carries f.type.byte f.bytes.tail f.bytes where
  flag := f.type.byte_framing
  fits := by
    have hp := f.payload_le
    have h6 : sricOverhead = 6 := rfl
    have h64 : payloadMax = 64 := rfl
    have h70 : sricDeframer.cap = 70 := rfl
    rw [f.tail_length]
    omega
  early p q hpq _ hq := f.checkFrame_part (by rw [f.bytes_eq_cons, hpq]; rfl) hq
  complete := f.checkFrame_bytes
  nonempty := by
    rw [← List.length_pos_iff, f.tail_length]
    exact Nat.lt_add_right _ (by decide)

/-! ## Streams without adjacent framing bytes -/

/-- `unescape` takes a framing byte only behind an escape. -/
theorem unescape_calm {u : List Byte} (h : sricStuffing.Calm u) (n : Nat) :
    ∀ b ∈ u.take (unescape u n).1, isFramingByte b = false := by
  fun_induction unescape u n with
  | case1 => simp
  | case2 => simp
  | case3 => simp
  | case4 n x src spos dest hx ih =>
      simp only [hx] at ih
      obtain ⟨hesc, htail⟩ := List.isChain_cons_cons.mp h
      rw [List.take_succ_cons, List.take_succ_cons]
      intro b hb
      rcases List.mem_cons.mp hb with rfl | hb
      · rfl
      · rcases List.mem_cons.mp hb with rfl | hb
        · exact Bool.eq_false_iff.mpr fun hf => (hesc hf).2 rfl
        · exact ih (List.isChain_of_isChain_cons htail) b hb
  | case5 => simp
  | case6 b src n hb hf spos dest hx ih =>
      simp only [hx] at ih
      rw [List.take_succ_cons]
      intro c hc
      rcases List.mem_cons.mp hc with rfl | hc
      · exact Bool.eq_false_iff.mpr fun hx => hf (isFramingByte_iff.mp hx)
      · exact ih (List.isChain_of_isChain_cons h) c hc

theorem startList_calm {u v u' v' : List Byte} (h : Rx.startList u v = some (u', v'))
    (hc : sricStuffing.Calm u) :
    sricStuffing.Calm u' ∧ isFramingByte (u'.headD 0) = false := by
  rw [Rx.startList] at h
  split at h
  · split at h
    · cases h
    · rename_i b w hw
      cases h
      have hsuf : b :: u' <:+ u := hw ▸ List.dropWhile_suffix _
      have hb := isFramingByte_of_dropWhile hw
      have hchain := hc.infix hsuf.isInfix
      refine ⟨List.isChain_of_isChain_cons hchain, ?_⟩
      cases u' with
      | nil => rfl
      | cons c u' =>
          apply Bool.eq_false_iff.mpr
          intro hf
          have := ((List.isChain_cons_cons.mp hchain).1 hf).1
          rw [show sricStuffing.flag b = isFramingByte b from rfl, hb] at this
          cases this
  · rename_i hk
    cases h
    rw [not_or] at hk
    exact ⟨hc, Bool.eq_false_iff.mpr hk.1⟩

namespace Rx

/-- A turn on a calm buffer neither overruns nor stops. -/
theorem WF.turn_calm {st : Rx} (h : st.WF) (hf : st.Fresh) (hc : sricStuffing.Calm st.unread) :
    st.overruns = false ∧ st.stops = false := by
  rcases h.startFrame_eq hf with ⟨_, hs, -⟩ | ⟨st1, hs, -, -, hl⟩
  · rw [overruns, stops, hs]
    exact ⟨rfl, rfl⟩
  · obtain ⟨hc1, hhead⟩ := startList_calm hl hc
    rw [overruns, stops, hs]
    refine ⟨?_, hhead⟩
    simp only [overrun, List.any_eq_false, Bool.and_eq_true, not_and]
    intro i _ _
    rw [Bool.not_eq_true, List.any_eq_false]
    intro b hb
    rw [unescape_calm hc1 _ b (List.mem_of_mem_drop hb)]
    exact Bool.false_ne_true

/-- Nor does any turn of a loop that starts on one. -/
theorem WF.loop_calm {fuel : Nat} {st : Rx} (h : st.WF) (hf : st.Fresh)
    (hacc : checkFrame st.assembled = none) (hc : sricStuffing.Calm st.unread) :
    st.anyTurn overruns fuel = false ∧ st.anyTurn stops fuel = false := by
  induction fuel generalizing st with
  | zero => exact ⟨rfl, rfl⟩
  | succ fuel ih =>
      obtain ⟨hov, hst⟩ := h.turn_calm hf hc
      obtain ⟨st', used, ha, hwf, hused⟩ := h.advance_returns hf
      rw [anyTurn, anyTurn, hov, hst, ha]
      cases used with
      | false => exact ⟨rfl, rfl⟩
      | true =>
          obtain ⟨c, hu, -⟩ := h.turn_deframes hf hacc hov ha
          have hc' : sricStuffing.Calm st'.settle.unread := by
            rw [settle_unread]
            exact hc.infix (List.IsSuffix.isInfix ⟨c, hu.symm⟩)
          exact ih hwf.settle (hused rfl).1.settle (checkFrame_settle st') hc'

end Rx

/-- A read whose bytes, with those still unread, are calm. -/
theorem rxTurn_calm {st : Rx} (h : RxInv st) {chunk : List Byte} (hfit : Fits st chunk)
    (hc : sricStuffing.Calm (st.unread ++ chunk)) :
    rxTurn Rx.overruns st chunk = false ∧ rxTurn Rx.stops st chunk = false := by
  obtain ⟨st1, hr, hwf, hu, hv, -⟩ := h.wf.readIncoming_eq hfit.1 hfit.2
  rw [rxTurn, rxTurn, hr]
  exact hwf.loop_calm (fresh_of_read hwf hfit.1 hu) (by rw [hv]; exact h.unaccepted)
    (by rw [hu]; exact hc)

/-! ## Whole runs -/

/-- The deframer delivers nothing on an escape alone. -/
theorem feed_lone_esc (v : List Byte) :
    (sricDeframer.feed (asmState v) [0x7D]).2 = [] := by
  rw [asmState]
  split <;> rfl

/-- Where nothing but a pending escape is unread, everything the stream
delivers has been handed over. -/
theorem Deframed.frames {s : List Byte} {st : Rx} {fs : List (List Byte)} (h : Deframed s st fs)
    (hu : st.unread = [] ∨ st.unread = [0x7D]) : fs = sricDeframer.frames s := by
  obtain ⟨c, rfl, hfeed⟩ := h.used
  rw [Deframer.frames, sricDeframer.feed_append, hfeed]
  rcases hu with hu | hu
  · rw [hu]
    simp
  · rw [hu, feed_lone_esc, List.append_nil]

/-- The calls of `rx` on the reads of a calm stream. -/
theorem deframed_run_calm {s rest : List Byte} {chunks : List (List Byte)} {st : Rx}
    {fs : List (List Byte)} (h : Deframed s st fs)
    (hu : st.unread = [] ∨ st.unread = [0x7D])
    (hc : sricStuffing.Calm (s ++ chunks.flatten ++ rest)) (hfit : Along rx Fits st chunks) :
    ∃ st' fs', run rx st chunks = .ok (st', fs') ∧ Deframed (s ++ chunks.flatten) st' (fs ++ fs')
      ∧ (st'.unread = [] ∨ st'.unread = [0x7D]) := by
  induction chunks generalizing s st fs with
  | nil => exact ⟨st, [], rfl, by simpa using h, hu⟩
  | cons chunk chunks ih =>
      rw [List.flatten_cons] at hc ⊢
      obtain ⟨c, hs, -⟩ := h.used
      have hinf : st.unread ++ chunk <:+: s ++ (chunk ++ chunks.flatten) ++ rest :=
        ⟨c, chunks.flatten ++ rest, by rw [hs]; simp⟩
      have hcalm := hc.infix hinf
      obtain ⟨hov, hst⟩ := rxTurn_calm h.inv hfit.1 hcalm
      obtain ⟨st1, fs1, hr⟩ := rx_returns h.inv hfit.1
      have h1 := h.rx hfit.1 hov hr
      have hu1 := (rx_drains h.inv hfit.1 hr).2 hst
      rw [← List.append_assoc] at hc ⊢
      obtain ⟨st', fs', hrun, h', hu'⟩ := ih h1 hu1 hc (hfit.2 st1 fs1 hr)
      exact ⟨st', fs1 ++ fs', run_cons_ok.mpr ⟨st1, fs1, fs', hr, hrun, rfl⟩,
        by rw [← List.append_assoc]; exact h', hu'⟩

/-- **Round trip**: the frames that `next_tx` builds in `txbuf`, read in
any pieces, reach `proc_rx_frame` unchanged and in order. After every
call those are the frames whose last byte has been read. -/
theorem rx_receives_transmitted (frames : List FrameT) (txbuf : List Byte)
    (htx : txbuf.length = lineBufSize) :
    ∃ s, transmitted txbuf frames = some s ∧ s = (frames.map FrameT.wire).flatten ∧
      ∀ chunks rest, chunks.flatten ++ rest = s → Along rx Fits Rx.init chunks →
        ∃ st n, run rx Rx.init chunks = .ok (st, (frames.take n).map FrameT.bytes)
          ∧ n ≤ frames.length
          ∧ (((frames.take n).map FrameT.wire).flatten).length ≤ chunks.flatten.length
          ∧ (n < frames.length → chunks.flatten.length
              < (((frames.take (n + 1)).map FrameT.wire).flatten).length)
          ∧ (rest = [] → n = frames.length) := by
  refine ⟨_, transmitted_wire htx frames, rfl, ?_⟩
  intro chunks rest hs hfit
  have hcalm : sricStuffing.Calm ([] ++ chunks.flatten ++ rest) := by
    rw [List.nil_append, hs]
    exact Deframer.calm_wires (D := sricDeframer) (fun f : FrameT => f.type.byte)
      (fun f => f.bytes.tail) fun f _ => f.carries.nonempty
  obtain ⟨st, fs, hrun, hd, hu⟩ := deframed_run_calm deframed_init (.inl rfl) hcalm hfit
  obtain ⟨n, hn, hfr, hle, hlt⟩ :=
    Deframer.feed_frames_prefix (D := sricDeframer) (fun f : FrameT => f.type.byte)
      (fun f => f.bytes.tail) FrameT.bytes (fun f _ => f.carries) hs (s := .hunt) rfl
  have hfs := hd.frames hu
  rw [List.nil_append, List.nil_append, Deframer.frames, hfr] at hfs
  refine ⟨st, n, by rw [hrun, hfs], hn, hle, hlt, ?_⟩
  intro hrest
  rw [hrest, List.append_nil] at hs
  by_contra hne
  -- the next frame would be longer than all there is
  have hless : chunks.flatten.length < ((frames.take (n + 1)).map FrameT.wire).flatten.length :=
    hlt (Nat.lt_of_le_of_ne hn hne)
  have hsplit := congrArg (fun fs => ((fs.map FrameT.wire).flatten).length)
    (List.take_append_drop (n + 1) frames)
  simp only [List.map_append, List.flatten_append, List.length_append] at hsplit
  rw [hs] at hless
  omega

/-- Two frames, read in three pieces: one cut lies behind an escape, the
other behind a framing byte. -/
theorem rx_receives_two_frames :
    ∃ s st, transmitted (List.replicate lineBufSize 0)
        [⟨.gwConf, 2, .null, [0x7E, 0x7D], by decide⟩, ⟨.sric, 2, .null, [], by decide⟩] = some s
      ∧ s = [[0x8E, 0x02, 0x01, 0x02, 0x7D], [0x5E, 0x7D, 0x5D, 0xD9, 0x77, 0x7E],
        [0x02, 0x01, 0x00, 0x47, 0xA3]].flatten
      ∧ run rx Rx.init [[0x8E, 0x02, 0x01, 0x02, 0x7D], [0x5E, 0x7D, 0x5D, 0xD9, 0x77, 0x7E],
        [0x02, 0x01, 0x00, 0x47, 0xA3]]
      = .ok (st, [[0x8E, 0x02, 0x01, 0x02, 0x7E, 0x7D, 0xD9, 0x77],
          [0x7E, 0x02, 0x01, 0x00, 0x47, 0xA3]]) := by
  obtain ⟨s, hs, -, h⟩ := rx_receives_transmitted
    [⟨.gwConf, 2, .null, [0x7E, 0x7D], by decide⟩, ⟨.sric, 2, .null, [], by decide⟩]
    (List.replicate lineBufSize 0) (List.length_replicate ..)
  obtain rfl : s = [[0x8E, 0x02, 0x01, 0x02, 0x7D], [0x5E, 0x7D, 0x5D, 0xD9, 0x77, 0x7E],
      [0x02, 0x01, 0x00, 0x47, 0xA3]].flatten :=
    Option.some.inj (hs.symm.trans (by decide +kernel))
  obtain ⟨st, n, hrun, -, -, -, hall⟩ := h
    [[0x8E, 0x02, 0x01, 0x02, 0x7D], [0x5E, 0x7D, 0x5D, 0xD9, 0x77, 0x7E],
      [0x02, 0x01, 0x00, 0x47, 0xA3]] [] (List.append_nil _) (by decide +kernel)
  rw [hall rfl] at hrun
  exact ⟨_, st, hs, rfl, hrun.trans (congrArg (fun fs => Except.ok (st, fs)) (by decide +kernel))⟩

/-! ## Arbitrary streams -/

/-- `chunks` cuts the stream `s` into reads that `read_incoming` can make. -/
def Cut (s : List Byte) (chunks : List (List Byte)) : Prop :=
  Along rx Fits Rx.init chunks ∧ chunks.flatten = s

instance (s : List Byte) (chunks : List (List Byte)) : Decidable (Cut s chunks) :=
  inferInstanceAs (Decidable (_ ∧ _))

/-- No call of `rx` on these reads goes past the end of a valid frame and
takes a framing byte there, and the last one does not return early. -/
structure Unhindered (chunks : List (List Byte)) : Prop where
  overruns : Along rx (fun st chunk => rxTurn Rx.overruns st chunk = false) Rx.init chunks
  stops : ∀ st fs, run rx Rx.init chunks.dropLast = .ok (st, fs) →
    rxTurn Rx.stops st (chunks.getLastD []) = false

/-- The calls of `rx` on any reads without overruns. -/
theorem deframed_run {s : List Byte} {chunks : List (List Byte)} {st : Rx}
    {fs : List (List Byte)} (h : Deframed s st fs) (hfit : Along rx Fits st chunks)
    (hov : Along rx (fun st chunk => rxTurn Rx.overruns st chunk = false) st chunks) :
    ∃ st' fs', run rx st chunks = .ok (st', fs')
      ∧ Deframed (s ++ chunks.flatten) st' (fs ++ fs') := by
  induction chunks generalizing s st fs with
  | nil => exact ⟨st, [], rfl, by simpa using h⟩
  | cons chunk chunks ih =>
      obtain ⟨st1, fs1, hr⟩ := rx_returns h.inv hfit.1
      obtain ⟨st', fs', hrun, h'⟩ :=
        ih (h.rx hfit.1 hov.1 hr) (hfit.2 st1 fs1 hr) (hov.2 st1 fs1 hr)
      exact ⟨st', fs1 ++ fs', run_cons_ok.mpr ⟨st1, fs1, fs', hr, hrun, rfl⟩,
        by simpa using h'⟩

/-- What an unhindered receiver hands over of a stream. -/
theorem Unhindered.run_frames {s : List Byte} {chunks : List (List Byte)}
    (h : Unhindered chunks) (hcut : Cut s chunks) :
    ∃ st, run rx Rx.init chunks = .ok (st, sricDeframer.frames s) := by
  obtain ⟨hfit, rfl⟩ := hcut
  rcases List.eq_nil_or_concat chunks with rfl | ⟨cs, chunk, rfl⟩
  · exact ⟨Rx.init, rfl⟩
  · rw [List.concat_eq_append] at *
    obtain ⟨st, fs, hrun, hd⟩ := deframed_run deframed_init (along_init hfit)
      (along_init h.overruns)
    obtain ⟨st', fs', hr⟩ := rx_returns hd.inv (along_at hfit hrun)
    have hov := along_at h.overruns hrun
    have hst := h.stops st fs (by rwa [List.dropLast_concat])
    have hu := (rx_drains hd.inv (along_at hfit hrun) hr).2 (by simpa using hst)
    have hfs := (hd.rx (along_at hfit hrun) hov hr).frames hu
    refine ⟨st', run_append_ok.mpr ⟨st, fs, fs', hrun, run_single.mpr hr, ?_⟩⟩
    simpa using hfs.symm

/-- **Reads do not matter** to an unhindered receiver: any two ways of
cutting a stream hand over the same frames. -/
theorem rx_reads_agree {s : List Byte} {cs ds : List (List Byte)} (hc : Cut s cs)
    (hd : Cut s ds) (huc : Unhindered cs) (hud : Unhindered ds) :
    ∃ st st' fs, run rx Rx.init cs = .ok (st, fs) ∧ run rx Rx.init ds = .ok (st', fs) := by
  obtain ⟨st, hst⟩ := huc.run_frames hc
  obtain ⟨st', hst'⟩ := hud.run_frames hd
  exact ⟨st, st', _, hst, hst'⟩

/-- Two stray framing bytes do no harm when they are read one by one. -/
theorem rx_reads_agree_stray :
    ∃ st st' fs, run rx Rx.init [[0x7E], [0x7E, 0x02, 0x01, 0x00, 0x47, 0xA3]] = .ok (st, fs)
      ∧ run rx Rx.init [[0x7E], [0x7E, 0x02], [0x01, 0x00, 0x47, 0xA3]] = .ok (st', fs) := by
  have hstops : ∀ cs chunk, ((run rx Rx.init cs).toOption.all fun p => !rxTurn Rx.stops p.1 chunk)
      = true → ∀ st fs, run rx Rx.init cs = .ok (st, fs) → rxTurn Rx.stops st chunk = false := by
    intro cs chunk h st fs hr
    rw [hr] at h
    simpa [Except.toOption] using h
  exact rx_reads_agree (s := [0x7E, 0x7E, 0x02, 0x01, 0x00, 0x47, 0xA3])
    (by decide +kernel) (by decide +kernel)
    ⟨by decide +kernel, hstops _ _ (by decide +kernel)⟩
    ⟨by decide +kernel, hstops _ _ (by decide +kernel)⟩

/-- Read in one go they hide the frame that the second one starts: the
call returns after the first, with the frame still unread. -/
theorem rx_reads_disagree :
    ¬∀ s cs ds, Cut s cs → Cut s ds →
      ∃ st st' fs, run rx Rx.init cs = .ok (st, fs) ∧ run rx Rx.init ds = .ok (st', fs) := by
  intro h
  obtain ⟨st, st', fs, hc, hd⟩ := h [0x7E, 0x7E, 0x02, 0x01, 0x00, 0x47, 0xA3]
    [[0x7E], [0x7E, 0x02, 0x01, 0x00, 0x47, 0xA3]]
    [[0x7E, 0x7E, 0x02, 0x01, 0x00, 0x47, 0xA3]] (by decide +kernel) (by decide +kernel)
  have hc' : ((run rx Rx.init [[0x7E], [0x7E, 0x02, 0x01, 0x00, 0x47, 0xA3]]).toOption.map Prod.snd)
      = some [[0x7E, 0x02, 0x01, 0x00, 0x47, 0xA3]] := by decide +kernel
  have hd' : ((run rx Rx.init [[0x7E, 0x7E, 0x02, 0x01, 0x00, 0x47, 0xA3]]).toOption.map Prod.snd)
      = some [] := by decide +kernel
  rw [hc] at hc'
  rw [hd] at hd'
  simp only [Except.toOption, Option.map_some, Option.some.injEq] at hc' hd'
  rw [hc'] at hd'
  cases hd'

end Sricd
