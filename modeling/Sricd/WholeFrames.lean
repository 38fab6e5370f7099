import Sricd.Effects

/-!
# Whole frames on the wire

What has been written to the serial port, against the frames that were
taken off the queue: each of them some number of times in full, and then
perhaps the beginning of the one in flight. It stays so exactly as long
as no ack arrives in the middle of a frame (`whole_frames_iff`).
-/

namespace Sricd

open Sricd.Lib

/-- What `n` transmissions of a frame put on the wire. -/
def repeated (e : TxEntry) (n : Nat) : List Byte := (List.replicate n e.frame.wire).flatten

/-- What the transmissions of some frames put on the wire, one frame after
the other. -/
def transmissions (es : List TxEntry) (ns : List Nat) : List Byte :=
  (List.zipWith repeated es ns).flatten

theorem repeated_succ (e : TxEntry) (n : Nat) :
    repeated e (n + 1) = repeated e n ++ e.frame.wire := by
  rw [repeated, List.replicate_succ', List.flatten_append, List.flatten_singleton]
  rfl

theorem transmissions_snoc {es : List TxEntry} {ns : List Nat} (h : ns.length = es.length)
    (e : TxEntry) (n : Nat) :
    transmissions (es ++ [e]) (ns ++ [n]) = transmissions es ns ++ repeated e n := by
  rw [transmissions, List.zipWith_append h.symm, List.flatten_append]
  exact congrArg _ (List.flatten_singleton ..)

namespace SricIf

/-- What has been written is whole frames, of those taken off the queue,
and at most the beginning of the frame in flight. -/
def WholeFrames (s : SricIf) (es : List TxEntry) (line : List Byte) : Prop :=
  ∃ ns part, ns.length = es.length ∧ line = transmissions es ns ++ part
    ∧ (part = [] ∨ ∃ e, s.txFrame = some e ∧ part <+: e.frame.wire ∧ part ≠ e.frame.wire)

/-- An ack comes in the middle of the frame in flight. -/
def Cuts (s : SricIf) (ev : IfEvent) : Prop :=
  Acks ev ∧ s.txFrame.isSome = true ∧ 0 < s.txpos ∧ s.txpos < s.txlen

/-- The frame in flight is the last one taken, and written up to `txpos`. -/
structure OnLine (s : SricIf) (es : List TxEntry) (line : List Byte) : Prop where
  idle : s.txFrame = none → ∃ ns, ns.length = es.length ∧ line = transmissions es ns
  flight : ∀ e, s.txFrame = some e → ∃ es' ns n, es = es' ++ [e] ∧ ns.length = es'.length
    ∧ line = transmissions es' ns ++ repeated e n ++ e.frame.wire.take s.txpos

theorem onLine_init : OnLine init [] [] where
  idle _ := ⟨[], rfl, rfl⟩
  flight e he := by cases he

/-- The frame in flight, counted once more when it is written. -/
theorem OnLine.whole {s : SricIf} {es : List TxEntry} {line : List Byte} (h : OnLine s es line)
    (hi : TxInv s) : WholeFrames s es line := by
  cases hf : s.txFrame with
  | none =>
      obtain ⟨ns, hlen, hline⟩ := h.idle hf
      exact ⟨ns, [], hlen, by rw [hline, List.append_nil], .inl rfl⟩
  | some e =>
      obtain ⟨es', ns, n, rfl, hlen, hline⟩ := h.flight e hf
      have hin := hi.inFlight e hf
      by_cases hp : s.txpos = s.txlen
      · refine ⟨ns ++ [n + 1], [], by simp [hlen], ?_, .inl rfl⟩
        rw [hline, hp, hin.txlen_eq, List.take_length, transmissions_snoc hlen, repeated_succ,
          List.append_nil, List.append_assoc]
      · refine ⟨ns ++ [n], e.frame.wire.take s.txpos, by simp [hlen], ?_,
          .inr ⟨e, hf, List.take_prefix .., fun hc => ?_⟩⟩
        · rw [hline, transmissions_snoc hlen]
        · have hlt := Nat.lt_of_le_of_ne hin.txpos_le hp
          have := congrArg List.length hc
          rw [List.length_take, ← hin.txlen_eq] at this
          omega

/-- A frame that ends, or is given up, between two transmissions. -/
theorem OnLine.settle {s : SricIf} {es : List TxEntry} {line : List Byte} (h : OnLine s es line)
    {e : TxEntry} (hf : s.txFrame = some e) (hin : InFlight s.txbuf s.txlen s.txpos e)
    (hp : s.txpos = 0 ∨ s.txpos = s.txlen) :
    ∃ es' ns n, es = es' ++ [e] ∧ ns.length = es'.length
      ∧ line = transmissions es' ns ++ repeated e n := by
  obtain ⟨es', ns, n, rfl, hlen, hline⟩ := h.flight e hf
  rcases hp with hp | hp
  · refine ⟨es', ns, n, rfl, hlen, ?_⟩
    rw [hline, hp, List.take_zero, List.append_nil]
  · refine ⟨es', ns, n + 1, rfl, hlen, ?_⟩
    rw [hline, hp, hin.txlen_eq, List.take_length, repeated_succ, List.append_assoc]

/-- A step in which nothing is written or taken. -/
theorem OnLine.keep {s s' : SricIf} {es : List TxEntry} {line : List Byte} (h : OnLine s es line)
    (hf : s'.txFrame = s.txFrame) (hp : s'.txpos = s.txpos) : OnLine s' es line := by
  refine ⟨fun hn => h.idle (hf ▸ hn), ?_⟩
  intro e he
  rw [hp]
  exact h.flight e (hf ▸ he)

/-- What is about to be written, taken off the queue if need be. -/
theorem OnLine.sending {s t : SricIf} {es : List TxEntry} {line : List Byte} {e : TxEntry}
    (h : OnLine s es line) (hs : Sending s t e) (id : Nat) (w : Option Nat) :
    OnLine t (es ++ s.taken (.ifTx id w)) line := by
  rcases hs.origin with rfl | ⟨hf, hpos, -, hnext⟩
  · rw [taken, hs.txFrame, if_pos (by rfl), List.append_nil]
    exact h
  · have htaken : s.taken (.ifTx id w) = [e] := by
      rw [taken, hf, if_neg (by rw [Option.isSome_none]; exact Bool.false_ne_true),
        SricIf.sending, hf]
      show ((s.txq.next _).map Prod.fst).toList = [e]
      rw [hnext]
      rfl
    obtain ⟨ns, hlen, hline⟩ := h.idle hf
    constructor
    · intro hn
      cases hs.txFrame.symm.trans hn
    · intro x hx
      cases hs.txFrame.symm.trans hx
      refine ⟨es, ns, 0, by rw [htaken], hlen, ?_⟩
      rw [hline, hpos, List.take_zero, List.append_nil]
      exact (List.append_nil _).symm

/-- The bytes that are written next. -/
theorem wire_take_add {t : SricIf} {e : TxEntry} {n : Nat}
    (hin : InFlight t.txbuf t.txlen t.txpos e) (hn : n ≤ t.txlen - t.txpos) :
    e.frame.wire.take (t.txpos + n)
      = e.frame.wire.take t.txpos ++ (t.txbuf.drop t.txpos).take n := by
  have hrest : (e.frame.wire.drop t.txpos).take n = (t.txbuf.drop t.txpos).take n := by
    rw [← hin.encoded, List.drop_take, List.take_take, Nat.min_eq_left hn]
  rw [List.take_add, hrest]

/-- **One step** that cuts no frame off. -/
theorem OnLine.effect {s s' : SricIf} {ev : IfEvent} {out : List IfOut} {es : List TxEntry}
    {line : List Byte} (hi : TxInv s) (h : OnLine s es line) (hc : ¬s.Cuts ev)
    (hs : s.step ev = .ok (s', out)) : OnLine s' (es ++ s.taken ev) (line ++ lineBytes out) := by
  cases step_effect hi hs with
  | pushed hsame hf _ _ htaken hquiet _ =>
      rw [htaken, hquiet.2, List.append_nil, List.append_nil]
      exact h.keep hf hsame.txpos
  | cancelled tag hev hs' _ hquiet =>
      subst hev
      have htaken : s.taken (.cancel tag) = [] := rfl
      rw [htaken, hquiet.2, List.append_nil, List.append_nil]
      exact h.keep (by rw [hs']) (by rw [hs'])
  | wrote id w t e n hev hsend hn hsame _ hout hcase =>
      subst hev
      have hline : lineBytes out = (t.txbuf.drop t.txpos).take n := by
        rw [hout]
        exact List.append_nil _
      obtain ⟨es', ns, k, hes, hlen, hsent⟩ := (h.sending hsend id w).flight e hsend.txFrame
      have hsent' : line ++ lineBytes out
          = transmissions es' ns ++ repeated e k ++ e.frame.wire.take (t.txpos + n) := by
        rw [hline, hsent, wire_take_add hsend.inFlight hn, List.append_assoc]
      rcases hcase with ⟨hf, -⟩ | ⟨hf, hend, -⟩
      · refine ⟨fun hnone => (nomatch hf.symm.trans hnone), ?_⟩
        intro x hx
        cases hf.symm.trans hx
        refine ⟨es', ns, k, hes, hlen, ?_⟩
        rw [hsent', hsame.txpos]
      · refine ⟨fun _ => ⟨ns ++ [k + 1], by rw [hes]; simp [hlen], ?_⟩, ?_⟩
        · rw [hsent', hend, hsend.inFlight.txlen_eq, List.take_length, hes,
            transmissions_snoc hlen, repeated_succ, List.append_assoc]
        · intro x hx
          cases hf.symm.trans hx
  | timedOut id hev _ _ _ hpos _ hf hquiet =>
      subst hev
      have htaken : s.taken (.txTimeout id) = [] := rfl
      rw [htaken, hquiet.2, List.append_nil, List.append_nil]
      -- the timeout is registered only while a written frame waits
      have hlive := (step_handle hs).1 _ rfl
      obtain ⟨-, e, hfs, hwritten, -⟩ := (hi.timer id).mp hlive
      obtain ⟨es', ns, n, hes, hlen, hline⟩ := h.settle hfs (hi.inFlight e hfs) (.inr hwritten)
      refine ⟨fun _ => ⟨ns ++ [n], by rw [hes]; simp [hlen], ?_⟩, ?_⟩
      · rw [hline, hes, transmissions_snoc hlen]
      · intro x hx
        rw [hf] at hx
        split at hx
        · cases hx
        cases hfs.symm.trans hx
        refine ⟨es', ns, n, hes, hlen, ?_⟩
        rw [hline, hpos, List.take_zero, List.append_nil]
  | acked e hacks hfs hf _ _ _ _ hquiet =>
      have htaken : s.taken ev = [] := by
        obtain ⟨bytes, rfl, -⟩ := hacks
        rfl
      rw [htaken, hquiet, List.append_nil, List.append_nil]
      have hin := hi.inFlight e hfs
      have hpos : s.txpos = 0 ∨ s.txpos = s.txlen := by
        by_contra hne
        rw [not_or] at hne
        exact hc ⟨hacks, by rw [hfs]; rfl, Nat.pos_of_ne_zero hne.1,
          Nat.lt_of_le_of_ne hin.txpos_le hne.2⟩
      obtain ⟨es', ns, n, hes, hlen, hline⟩ := h.settle hfs hin hpos
      refine ⟨fun _ => ⟨ns ++ [n], by rw [hes]; simp [hlen], ?_⟩, ?_⟩
      · rw [hline, hes, transmissions_snoc hlen]
      · intro x hx
        cases hf.symm.trans hx

/-! ## A frame that is cut off -/

/-- No encoding is the beginning of another. -/
theorem wire_unextended {f g : FrameT} (h : f.wire <+: g.wire) : f.wire = g.wire := by
  obtain ⟨htype, htail⟩ := List.cons_prefix_cons.mp h
  have hpre := sricStuffing.prefix_of_stuff_prefix htail
  -- the length is the third byte behind the framing byte
  have hbyte : BitVec.ofNat 8 f.payload.length = BitVec.ofNat 8 g.payload.length := by
    obtain ⟨r, hr⟩ := hpre
    exact Option.some.inj (congrArg (fun l => l[2]?) hr)
  have hlen : f.payload.length = g.payload.length := by
    have h64 : payloadMax = 64 := rfl
    have hf := f.payload_le
    have hg := g.payload_le
    have := congrArg BitVec.toNat hbyte
    rw [BitVec.toNat_ofNat, BitVec.toNat_ofNat] at this
    omega
  have htails : f.bytes.tail = g.bytes.tail :=
    hpre.eq_of_length (by rw [f.tail_length, g.tail_length, hlen])
  rw [FrameT.wire, FrameT.wire, htype, htails]

theorem wire_length_ge (f : FrameT) : sricOverhead ≤ f.wire.length := by
  have hstuff := sricStuffing.length_le_stuff f.bytes.tail
  rw [f.tail_length] at hstuff
  have h6 : sricOverhead = 6 := rfl
  rw [FrameT.wire, List.length_cons]
  omega

/-- What some frames put on the wire, each of them once. -/
def wires (fs : List FrameT) : List Byte := (fs.map FrameT.wire).flatten

theorem transmissions_wires (es : List TxEntry) (ns : List Nat) :
    ∃ fs, transmissions es ns = wires fs := by
  induction es generalizing ns with
  | nil => exact ⟨[], rfl⟩
  | cons e es ih =>
      cases ns with
      | nil => exact ⟨[], rfl⟩
      | cons n ns =>
          obtain ⟨fs, hfs⟩ := ih ns
          refine ⟨List.replicate n e.frame ++ fs, ?_⟩
          rw [wires, List.map_append, List.flatten_append, List.map_replicate]
          exact congrArg (repeated e n ++ ·) hfs

/-- The beginning of a frame behind whole frames is not whole frames
again. -/
theorem wires_part {fs gs : List FrameT} {f : FrameT} {part : List Byte} (hne : part ≠ [])
    (hpre : part <+: f.wire) (hcut : part ≠ f.wire) : wires fs ++ part ≠ wires gs := by
  induction fs generalizing gs with
  | nil =>
      intro heq
      cases gs with
      | nil => exact hne heq
      | cons g gs =>
          have hg : g.wire <+: part := ⟨wires gs, heq.symm⟩
          have hgf : g.wire = f.wire := wire_unextended (hg.trans hpre)
          exact hcut (hpre.eq_of_length_le (by rw [← hgf]; exact hg.length_le))
  | cons f' fs ih =>
      intro heq
      cases gs with
      | nil =>
          have := f'.wire_pos
          rw [List.length_pos_iff] at this
          exact this (List.append_eq_nil_iff.mp (List.append_eq_nil_iff.mp heq).1).1
      | cons g gs =>
          have heq' : f'.wire ++ (wires fs ++ part) = g.wire ++ wires gs := by
            rw [← List.append_assoc]
            exact heq
          have hfg : f'.wire = g.wire := by
            rcases List.prefix_or_prefix_of_prefix ⟨_, heq'⟩ (List.prefix_append _ _) with h | h
            · exact wire_unextended h
            · exact (wire_unextended h).symm
          rw [hfg, List.append_cancel_left_eq] at heq'
          exact ih heq'

/-- Behind an ack in the middle of a frame its beginning is left over. -/
theorem OnLine.cut {s s' : SricIf} {ev : IfEvent} {out : List IfOut} {es : List TxEntry}
    {line : List Byte} (hi : TxInv s) (h : OnLine s es line) (hc : s.Cuts ev)
    (hs : s.step ev = .ok (s', out)) :
    ¬WholeFrames s' (es ++ s.taken ev) (line ++ lineBytes out) := by
  obtain ⟨hacks, hsome, hpos, hlt⟩ := hc
  obtain ⟨e, hf⟩ := Option.isSome_iff_exists.mp hsome
  obtain ⟨bytes, rfl, hme, hack⟩ := hacks
  have hgone : s'.txFrame = none ∧ lineBytes out = [] := by
    cases step_effect hi hs with
    | pushed _ _ _ hfate _ _ _ =>
        -- the ack settles the frame
        rw [settled, if_pos ⟨hme, hack⟩, hf] at hfate
        cases hfate
    | cancelled _ hev => cases hev
    | wrote _ _ _ _ _ hev => cases hev
    | timedOut _ hev => cases hev
    | acked _ _ _ hf' _ _ _ _ hquiet => exact ⟨hf', hquiet⟩
  obtain ⟨es', ns, n, -, hlen, hline⟩ := h.flight e hf
  have hin := hi.inFlight e hf
  have htake : (e.frame.wire.take s.txpos).length = s.txpos := by
    rw [List.length_take, ← hin.txlen_eq]
    omega
  intro hx
  obtain ⟨ms, part, -, hwhole, hpart⟩ := hx
  rcases hpart with rfl | ⟨x, hx, -⟩
  · obtain ⟨fs, hfs⟩ := transmissions_wires (es' ++ [e]) (ns ++ [n])
    obtain ⟨gs, hgs⟩ := transmissions_wires (es ++ s.taken (.frame bytes)) ms
    have hne : e.frame.wire.take s.txpos ≠ [] := by
      intro hnil
      rw [hnil] at htake
      exact Nat.ne_of_gt hpos htake.symm
    have hcut : e.frame.wire.take s.txpos ≠ e.frame.wire := by
      intro hall
      rw [hall, ← hin.txlen_eq] at htake
      exact Nat.ne_of_gt hlt htake
    have heq : wires fs ++ e.frame.wire.take s.txpos = wires gs := by
      rw [← hfs, ← hgs, transmissions_snoc hlen, ← hline]
      rw [hgone.2, List.append_nil, List.append_nil] at hwhole
      exact hwhole
    exact wires_part hne (List.take_prefix _ _) hcut heq
  · cases hgone.1.symm.trans hx

/-! ## Runs -/

theorem onLine_run {s t : SricIf} {evs : List IfEvent} {os : List IfOut} {es : List TxEntry}
    {line : List Byte} (hi : TxInv s) (h : OnLine s es line) (hc : Along step (fun s ev => ¬s.Cuts ev) s evs)
    (hr : Lib.run step s evs = .ok (t, os)) :
    OnLine t (es ++ history step taken s evs) (line ++ lineBytes os) := by
  induction evs generalizing s es line os with
  | nil =>
      cases hr
      simpa [history, lineBytes] using h
  | cons ev evs ih =>
      obtain ⟨u, o, os', hs, hr', rfl⟩ := run_cons_ok.mp hr
      have := ih (hi.step hs) (h.effect hi hc.1 hs) (hc.2 u o hs) hr'
      rw [history, hs, lineBytes, List.flatMap_append]
      rwa [List.append_assoc, List.append_assoc] at this

/-- **Only whole frames go on the wire, as long as no ack comes in the middle
of one.** At every point of a run what has been written is the frames
taken off the queue, in order, each some number of times in full, and at
most the beginning of the one in flight: exactly when no ack for us is
received while the frame in flight is partly written. -/
theorem whole_frames_iff {evs : List IfEvent} {s : SricIf} {os : List IfOut}
    (hr : Lib.run step init evs = .ok (s, os)) :
    (∀ pre post u out, evs = pre ++ post → Lib.run step init pre = .ok (u, out) →
        WholeFrames u (history step taken init pre) (lineBytes out))
      ↔ Along step (fun s ev => ¬s.Cuts ev) init evs := by
  have honline : ∀ {pre u out}, Along step (fun s ev => ¬s.Cuts ev) init pre →
      Lib.run step init pre = .ok (u, out) →
      OnLine u (history step taken init pre) (lineBytes out) := fun hc hu => by
    simpa using onLine_run txInv_init onLine_init hc hu
  constructor
  · intro h
    apply along_of_prefixes
    intro pre ev post u out hevs hc hu hcuts
    -- the run goes on behind the first frame that is cut off
    subst hevs
    obtain ⟨w, p, hs⟩ := run_step_at hr hu
    have hpre : Lib.run step init (pre ++ [ev]) = .ok (w, out ++ p) :=
      run_append_ok.mpr ⟨u, out, p, hu, run_single.mpr hs, rfl⟩
    have hwhole := h (pre ++ [ev]) post w (out ++ p) (by simp) hpre
    apply (honline hc hu).cut (txInv_init.run hu) hcuts hs
    have hlast : history step taken u [ev] = u.taken ev := by
      rw [history, hs]
      exact List.append_nil _
    rwa [history_append hu, hlast, lineBytes, List.flatMap_append] at hwhole
  · intro hc pre post u out hx hu
    obtain rfl := hx
    exact (honline (along_init hc) hu).whole (txInv_init.run hu)

/-- Four bytes of a frame are written. -/
theorem whole_frames_iff_partial :
    ∃ s os, Lib.run step init [.push firstFrame 0, .ifTx 1 (some 4)] = .ok (s, os)
      ∧ WholeFrames s (history step taken init [.push firstFrame 0, .ifTx 1 (some 4)])
        (lineBytes os) := by
  obtain ⟨⟨s, os⟩, hr, -⟩ := ok_of_any
    (r := Lib.run step init [.push firstFrame 0, .ifTx 1 (some 4)]) (p := fun _ => true)
    (by decide +kernel)
  have hc : Along step (fun s ev => ¬s.Cuts ev) init [.push firstFrame 0, .ifTx 1 (some 4)] := by
    apply along_of_prefixes
    intro pre ev post u out hevs _ _ hcuts
    obtain ⟨⟨bytes, rfl, -⟩, -⟩ := hcuts
    have : IfEvent.frame bytes ∈ [.push firstFrame 0, .ifTx 1 (some 4)] := by
      rw [hevs]
      exact List.mem_append_right _ List.mem_cons_self
    simp at this
  exact ⟨s, os, hr, (whole_frames_iff hr).mpr hc _ [] s os (by simp) hr⟩

/-- An ack behind three bytes of the first frame of the enumeration: the
next frame begins where the fourth should be. -/
theorem whole_frames_cut :
    ∃ s os, Lib.run step init
        [.enumStart, .ifTx 1 (some 3), .frame (ackBytes 1 []), .ifTx 1 (some 1)] = .ok (s, os)
      ∧ ¬WholeFrames s (history step taken init
        [.enumStart, .ifTx 1 (some 3), .frame (ackBytes 1 []), .ifTx 1 (some 1)])
        (lineBytes os) := by
  obtain ⟨⟨s, os⟩, hr, hp⟩ := ok_of_any (r := Lib.run step init
      [.enumStart, .ifTx 1 (some 3), .frame (ackBytes 1 []), .ifTx 1 (some 1)])
    (p := fun p => (lineBytes p.2).length == 4
      && p.1.txFrame.all fun e => !(lineBytes p.2).isPrefixOf e.frame.wire) (by decide +kernel)
  rw [Bool.and_eq_true, beq_iff_eq] at hp
  obtain ⟨hlen, hcut⟩ := hp
  refine ⟨s, os, hr, ?_⟩
  intro h
  obtain ⟨ns, part, -, hline, hpart⟩ := h
  obtain ⟨fs, hfs⟩ := transmissions_wires (history step taken init
    [.enumStart, .ifTx 1 (some 3), .frame (ackBytes 1 []), .ifTx 1 (some 1)]) ns
  rw [hfs] at hline
  cases fs with
  | nil =>
      have hall : lineBytes os = part := hline
      rcases hpart with rfl | ⟨e, he, hpre, -⟩
      · rw [hall] at hlen
        cases hlen
      · rw [he, hall] at hcut
        have : part.isPrefixOf e.frame.wire = false := by simpa using hcut
        rw [List.isPrefixOf_iff_prefix.mpr hpre] at this
        cases this
  | cons f fs =>
      have hge := wire_length_ge f
      have h6 : sricOverhead = 6 := rfl
      rw [hline, wires, List.map_cons, List.flatten_cons, List.length_append,
        List.length_append] at hlen
      omega

end SricIf

end Sricd
