import Sricd.Formats
import Sricd.Turns

/-!
# `sric_txrx`

The call with which a client has a frame sent and waits for the response to
it, and a client that makes one such call after the other. What the client
has written, and which calls have returned what, is described by the
replies that it has had (`Dialogue.txrxs`).
-/

namespace Sricd

open Sricd.Lib

namespace SricFrame

/-- A frame that nothing has been received into. -/
def blank : SricFrame where
  address := 0
  note := 0
  payloadLength := 0
  payload := List.replicate sricMaxPayloadSize 0
  payload_size := List.length_replicate

end SricFrame

namespace Fd

variable {κ : Type} (F : Fd κ)

/-- `sric_txrx`. -/
def sricTxrx (ctx : Context κ) (outframe inframe : SricFrame) (timeout : BitVec 32) :
    Except Halt (Context κ × SricFrame × Nat) :=
  let (ctx, rv) := F.sricTx ctx outframe
  if rv ≠ 0 then .ok (ctx, inframe, 1)
  else F.sricPollRx ctx inframe timeout

/-- One call after the other, with no timeout: the frames of the calls that
have returned, each with its response where there is one. A call that the
connection does not serve is the last one; where a read finds too little,
this is the call that has not returned yet. -/
def txrxs (ctx : Context κ) :
    List SricFrame → Except Halt (Context κ × List (SricFrame × Option SricFrame))
  | [] => .ok (ctx, [])
  | frame :: frames => do
      let (ctx, response, rv) ← F.sricTxrx ctx frame .blank (-1)
      if rv = 0 then
        let (ctx, rs) ← txrxs ctx frames
        .ok (ctx, (frame, some response) :: rs)
      else if ctx.error = .sricd then .ok (ctx, [])
      else
        let (ctx, rs) ← txrxs ctx frames
        .ok (ctx, (frame, none) :: rs)

end Fd

/-! ## A frame and the request for it -/

namespace SricFrame

theorem sent_le (g : SricFrame) : g.sent.length ≤ payloadMax := by
  have h64 : sricMaxPayloadSize = payloadMax := rfl
  rw [SricFrame.sent, List.length_take, g.payload_size, h64]
  exact Nat.min_le_right ..

/-- What `sric_tx` asks the daemon for. -/
def request (g : SricFrame) : Request :=
  .tx (g.address.truncate 16) g.sent (Nat.lt_of_le_of_lt g.sent_le (by decide))

/-- What the daemon has sent for it. -/
def frameT (c : Nat) (g : SricFrame) : FrameT where
  type := .sric
  address := g.address.toNat
  tag := .client c
  payload := g.sent
  payload_le := g.sent_le

/-- The frame has been received as the daemon has passed it on. -/
structure Received (r : SricFrame) (f : Frame) : Prop where
  address : r.address.toNat = f.sourceAddress.toNat
  note : r.note.toNat = f.note.toNat
  payload : r.sent = f.payload

end SricFrame

/-- The request that waits for a response. -/
abbrev Request.await : Request := .poll .rx (-1)

/-! ## The replies to a client -/

/-- What is written to a client's socket. -/
def IpcOut.bytesTo (c : Nat) : IpcOut → List Byte
  | .reply d r => if d = c then r.bytes else []
  | _ => []

def bytesTo (c : Nat) (out : List IpcOut) : List Byte := out.flatMap (IpcOut.bytesTo c)

theorem bytesTo_append (c : Nat) (out out' : List IpcOut) :
    bytesTo c (out ++ out') = bytesTo c out ++ bytesTo c out' := List.flatMap_append

theorem bytesTo_cons (c : Nat) (o : IpcOut) (out : List IpcOut) :
    bytesTo c (o :: out) = o.bytesTo c ++ bytesTo c out := List.flatMap_cons

@[simp] theorem IpcOut.bytesTo_reply (c : Nat) (r : Reply) : (IpcOut.reply c r).bytesTo c = r.bytes :=
  if_pos rfl

/-- What is written to a client is about it. -/
theorem bytesTo_about (c : Nat) (out : List IpcOut) :
    bytesTo c (aboutClient c out) = bytesTo c out := by
  induction out with
  | nil => rfl
  | cons o out ih =>
      rw [bytesTo_cons, ← ih, aboutClient, List.filter_cons]
      by_cases ho : o.about c = true
      · rw [if_pos ho, bytesTo_cons]
        rfl
      · have hnone : o.bytesTo c = [] := by
          cases o with
          | reply d r =>
              have hd : d ≠ c := by simpa [IpcOut.about] using ho
              exact if_neg hd
          | _ => rfl
        rw [if_neg ho, hnone]
        rfl

/-! ## One call -/

section
variable {ctx : Context Line} {rest : List Byte} {g : SricFrame}

/-- A call that waits for the status of its command. -/
theorem sendCommand_waits (ctx : Context Line) (data : List Byte) (hin : ctx.fd.incoming = []) :
    ∃ ctx', Line.fd.sendCommand ctx data = (ctx', 1) ∧ ctx'.error = .sricd := by
  refine ⟨{ ctx with fd := ⟨ctx.fd.sent ++ data, []⟩, error := .sricd }, ?_, rfl⟩
  rw [Fd.sendCommand]
  simp [Line.fd, hin]

/-- A call whose command is refused with `E_BADADDR`. -/
theorem sendCommand_refused (ctx : Context Line) (data : List Byte)
    (hin : ctx.fd.incoming = eBadAddr :: rest) :
    ∃ ctx', Line.fd.sendCommand ctx data = (ctx', 1) ∧ ctx'.error = .badPayload
      ∧ ctx'.fd.incoming = rest := by
  have hread : Line.fd.read ⟨ctx.fd.sent ++ data, ctx.fd.incoming⟩ 1
      = (⟨ctx.fd.sent ++ data, rest⟩, [eBadAddr]) := by
    dsimp only [Line.fd]
    rw [hin]
    rfl
  exact ⟨_, Line.fd.sendCommand_badAddr rfl hread, rfl, rfl⟩

/-- What `sric_tx` makes of a good frame. -/
theorem sricTx_good (hg : checkFrame g = none) :
    Line.fd.sricTx ctx g = Line.fd.sendCommand ctx.clearError g.request.bytes := by
  have hbytes : Fd.txCommand g = g.request.bytes := txCommand_request (checkFrame_none hg).2 _
  rw [Fd.sricTx]
  simp only [hg]
  rw [hbytes]

/-- A frame that is refused before anything is written. -/
theorem sricTxrx_bad (ctx : Context Line) (hg : checkFrame g ≠ none) :
    ∃ ctx', Line.fd.sricTxrx ctx g .blank (-1) = .ok (ctx', .blank, 1) ∧ ctx'.error ≠ .sricd
      ∧ ctx'.fd = ctx.fd := by
  obtain ⟨e, he⟩ := Option.ne_none_iff_exists'.mp hg
  refine ⟨{ ctx with error := e }, ?_, ?_, rfl⟩
  · rw [Fd.sricTxrx, Fd.sricTx]
    simp only [he]
    rfl
  · intro hsricd
    obtain rfl : e = .sricd := hsricd
    -- none of the checks sets this error
    rw [checkFrame, checkAddress] at he
    grind

/-- A frame whose status has not come. -/
theorem sricTxrx_sending (hg : checkFrame g = none) (hin : ctx.fd.incoming = []) :
    ∃ ctx', Line.fd.sricTxrx ctx g .blank (-1) = .ok (ctx', .blank, 1) ∧ ctx'.error = .sricd
      ∧ ctx'.fd.sent = ctx.fd.sent ++ g.request.bytes := by
  have hsent := sendCommand_sent ctx.clearError g.request.bytes
  obtain ⟨ctx', hsend, herror⟩ := sendCommand_waits ctx.clearError g.request.bytes hin
  rw [hsend] at hsent
  refine ⟨ctx', ?_, herror, hsent⟩
  rw [Fd.sricTxrx, sricTx_good hg, hsend]
  rfl

/-- A frame for a device that is not there. -/
theorem sricTxrx_unknown (hg : checkFrame g = none) (hin : ctx.fd.incoming = eBadAddr :: rest) :
    ∃ ctx', Line.fd.sricTxrx ctx g .blank (-1) = .ok (ctx', .blank, 1) ∧ ctx'.error ≠ .sricd
      ∧ ctx'.fd.incoming = rest ∧ ctx'.fd.sent = ctx.fd.sent ++ g.request.bytes := by
  have hsent := sendCommand_sent ctx.clearError g.request.bytes
  obtain ⟨ctx', hsend, herror, hrest⟩ :=
    sendCommand_refused ctx.clearError g.request.bytes hin
  rw [hsend] at hsent
  refine ⟨ctx', ?_, ?_, hrest, hsent⟩
  · rw [Fd.sricTxrx, sricTx_good hg, hsend]
    rfl
  · rw [herror]
    decide

/-- A frame that is sent. -/
theorem sricTx_sent (hg : checkFrame g = none) (hin : ctx.fd.incoming = 0 :: rest) :
    ∃ ctx', Line.fd.sricTx ctx g = (ctx', 0) ∧ ctx'.fd.incoming = rest
      ∧ ctx'.fd.sent = ctx.fd.sent ++ g.request.bytes := by
  have hsent := sendCommand_sent ctx.clearError g.request.bytes
  have hin : ctx.clearError.fd.incoming = 0 :: rest := hin
  obtain ⟨ctx', hsend, hrest⟩ := sendCommand_line g.request.bytes hin
  rw [hsend] at hsent
  refine ⟨ctx', ?_, hrest, hsent⟩
  rw [sricTx_good hg, hsend]

/-- A frame whose response has not come. -/
theorem sricTxrx_polling (hg : checkFrame g = none) (hin : ctx.fd.incoming = [0]) :
    ∃ ctx', Line.fd.sricTxrx ctx g .blank (-1) = .ok (ctx', .blank, 1) ∧ ctx'.error = .sricd
      ∧ ctx'.fd.sent = ctx.fd.sent ++ (g.request.bytes ++ Request.await.bytes) := by
  obtain ⟨ctx1, htx, hin1, hsent1⟩ := sricTx_sent hg hin
  have hsent := sendCommand_sent ctx1.clearError (Fd.pollCommand (-1) 2)
  obtain ⟨ctx', hsend, herror⟩ :=
    sendCommand_waits ctx1.clearError (Fd.pollCommand (-1) 2) hin1
  rw [hsend] at hsent
  refine ⟨ctx', ?_, herror, ?_⟩
  · rw [Fd.sricTxrx, htx]
    dsimp only
    rw [if_neg (not_not.mpr rfl), Fd.sricPollRx, Fd.sricPoll, hsend]
    rfl
  · rw [← List.append_assoc, ← hsent1]
    exact hsent

/-- **A frame that is answered.** -/
theorem sricTxrx_answered {f : Frame} (hg : checkFrame g = none)
    (hf : f.payload.length ≤ payloadMax) (hin : ctx.fd.incoming = 0 :: ((Reply.frame f).bytes ++ rest)) :
    ∃ ctx' r, Line.fd.sricTxrx ctx g .blank (-1) = .ok (ctx', r, 0) ∧ r.Received f
      ∧ ctx'.fd.incoming = rest
      ∧ ctx'.fd.sent = ctx.fd.sent ++ (g.request.bytes ++ Request.await.bytes) := by
  obtain ⟨ctx1, htx, hin1, hsent1⟩ := sricTx_sent hg hin
  obtain ⟨ctx', r, hpoll, hrest, haddress, hnote, hlength, hpayload⟩ :=
    replyAgrees .rx ctx1 .blank (-1) f rest hf hin1
  have hnat : ∀ {x : BitVec 32} {n : Nat}, n < 2 ^ 31 → x.toInt = n → x.toNat = n := by
    intro x n hn hx
    rw [BitVec.toInt_eq_toNat_cond] at hx
    have := x.isLt
    split at hx
    · omega
    · omega
  have hbyte : ∀ b : Byte, b.toNat < 2 ^ 31 := fun b => Nat.lt_of_lt_of_le b.isLt (by decide)
  have hlen : r.payloadLength.toNat = f.payload.length :=
    hnat (Nat.lt_of_le_of_lt hf (by decide)) hlength
  refine ⟨ctx', r, ?_, ⟨hnat (hbyte _) haddress, hnat (hbyte _) hnote, ?_⟩, hrest, ?_⟩
  · rw [Fd.sricTxrx, htx]
    exact hpoll
  · rw [SricFrame.sent, hlen, hpayload]
  · have hsent := sricPoll_sent hpoll
    rw [hsent, hsent1, List.append_assoc]
    rfl

end

/-! ## All calls -/

/-- How far the calls have come, and what the daemon has said about them:
what has been written for those replies, the calls that have returned, each
with the response to it, and the request that has no reply yet. `known`
tells which devices the daemon knows. -/
inductive Dialogue (known : Nat → Bool) (c : Nat) :
    List SricFrame → List IpcOut → List Byte → List (SricFrame × Option Frame) → Option Request → Prop where
  | returned : Dialogue known c [] [] [] [] none
  | bad {g : SricFrame} {gs : List SricFrame} {out : List IpcOut} {done : List Byte}
      {rs : List (SricFrame × Option Frame)} {q : Option Request} (bad : checkFrame g ≠ none)
      (rest : Dialogue known c gs out done rs q) :
      Dialogue known c (g :: gs) out done ((g, none) :: rs) q
  | sending {g : SricFrame} {gs : List SricFrame} (good : checkFrame g = none) :
      Dialogue known c (g :: gs) [] [] [] (some g.request)
  | unknown {g : SricFrame} {gs : List SricFrame} {out : List IpcOut} {done : List Byte}
      {rs : List (SricFrame × Option Frame)} {q : Option Request} (good : checkFrame g = none)
      (absent : known g.address.toNat = false) (rest : Dialogue known c gs out done rs q) :
      Dialogue known c (g :: gs) (.reply c (.status eBadAddr) :: out) (g.request.bytes ++ done)
        ((g, none) :: rs) q
  | polling {g : SricFrame} {gs : List SricFrame} (good : checkFrame g = none)
      (there : known g.address.toNat = true) :
      Dialogue known c (g :: gs) [.push (g.frameT c), .reply c (.status eSuccess)] g.request.bytes []
        (some .await)
  | answered {g : SricFrame} {gs : List SricFrame} {out : List IpcOut} {done : List Byte}
      {rs : List (SricFrame × Option Frame)} {q : Option Request} {f : Frame}
      (good : checkFrame g = none) (there : known g.address.toNat = true)
      (short : f.payload.length ≤ payloadMax) (rest : Dialogue known c gs out done rs q) :
      Dialogue known c (g :: gs)
        (.push (g.frameT c) :: .reply c (.status eSuccess) :: .reply c (.frame f) :: out)
        (g.request.bytes ++ Request.await.bytes ++ done) ((g, some f) :: rs) q

/-- The bytes of a request that is pending. -/
def requestBytes (q : Option Request) : List Byte := q.elim [] Request.bytes

/-- A call has returned what it should. -/
def Returned (p : SricFrame × Option SricFrame) (q : SricFrame × Option Frame) : Prop :=
  p.1 = q.1 ∧ Option.Rel SricFrame.Received p.2 q.2

/-- The calls that have returned with a response. -/
def withResponse {α : Type} (rs : List (SricFrame × Option α)) : List (SricFrame × α) :=
  rs.filterMap fun p => p.2.map (p.1, ·)

@[simp] theorem withResponse_nil {α : Type} : withResponse ([] : List (SricFrame × Option α)) = [] := rfl

@[simp] theorem withResponse_some {α : Type} (g : SricFrame) (a : α)
    (rs : List (SricFrame × Option α)) :
    withResponse ((g, some a) :: rs) = (g, a) :: withResponse rs := rfl

section
variable {rs' : List (SricFrame × Option SricFrame)} {rs : List (SricFrame × Option Frame)}

theorem returned_frames (h : List.Forall₂ Returned rs' rs) : rs'.map Prod.fst = rs.map Prod.fst := by
  induction h with
  | nil => rfl
  | cons hp _ ih => rw [List.map_cons, List.map_cons, hp.1, ih]

theorem returned_responses (h : List.Forall₂ Returned rs' rs) :
    List.Forall₂ (fun p q => p.1 = q.1 ∧ p.2.Received q.2) (withResponse rs') (withResponse rs) := by
  induction h with
  | nil => exact .nil
  | @cons p q _ _ hp _ ih =>
      obtain ⟨g, r⟩ := p
      obtain ⟨g', f⟩ := q
      obtain ⟨rfl, hrel⟩ := hp
      cases hrel with
      | none => exact ih
      | some hreceived => exact .cons ⟨rfl, hreceived⟩ ih

/-- Which calls fail. -/
theorem returned_failed {Q : SricFrame → Prop} (h : List.Forall₂ Returned rs' rs)
    (hrs : ∀ q ∈ rs, q.2 = none ↔ Q q.1) : ∀ p ∈ rs', p.2 = none ↔ Q p.1 := by
  induction h with
  | nil => exact fun p hp => absurd hp List.not_mem_nil
  | @cons p q _ _ hp _ ih =>
      obtain ⟨hq, hrest⟩ := List.forall_mem_cons.mp hrs
      obtain ⟨g, r⟩ := p
      obtain ⟨g', f⟩ := q
      obtain ⟨rfl, hrel⟩ := hp
      refine List.forall_mem_cons.mpr ⟨?_, ih hrest⟩
      cases hrel with
      | none => exact ⟨fun _ => hq.mp rfl, fun _ => rfl⟩
      | some hreceived => simpa using hq

end

namespace Dialogue

section
variable {known : Nat → Bool} {c : Nat} {gs : List SricFrame} {out : List IpcOut} {done : List Byte}
  {rs : List (SricFrame × Option Frame)} {q : Option Request}

/-- **What the library does** on the replies: it has written the requests,
and the calls have returned. -/
theorem txrxs (h : Dialogue known c gs out done rs q) {ctx : Context Line}
    (hin : ctx.fd.incoming = bytesTo c out) :
    ∃ ctx' rs', Line.fd.txrxs ctx gs = .ok (ctx', rs')
      ∧ ctx'.fd.sent = ctx.fd.sent ++ (done ++ requestBytes q) ∧ List.Forall₂ Returned rs' rs := by
  induction h generalizing ctx with
  | returned => exact ⟨ctx, [], rfl, (List.append_nil _).symm, .nil⟩
  | bad bad rest ih =>
      obtain ⟨ctx1, hcall, herror, hfd⟩ := sricTxrx_bad ctx bad
      rw [← hfd] at hin
      obtain ⟨ctx', rs', hrest, hsent, hall⟩ := ih hin
      refine ⟨ctx', (_, none) :: rs', ?_, by rw [hsent, hfd], .cons ⟨rfl, .none⟩ hall⟩
      rw [Fd.txrxs, hcall, ok_bind]
      dsimp only
      rw [if_neg (by decide), if_neg herror, hrest, ok_bind]
  | sending good =>
      obtain ⟨ctx', hcall, herror, hsent⟩ := sricTxrx_sending good hin
      refine ⟨ctx', [], ?_, hsent, .nil⟩
      rw [Fd.txrxs, hcall, ok_bind]
      dsimp only
      rw [if_neg (by decide), if_pos herror]
  | unknown good absent rest ih =>
      rw [bytesTo_cons, IpcOut.bytesTo_reply] at hin
      obtain ⟨ctx1, hcall, herror, hin1, hsent1⟩ := sricTxrx_unknown good hin
      obtain ⟨ctx', rs', hrest, hsent, hall⟩ := ih hin1
      refine ⟨ctx', (_, none) :: rs', ?_, ?_, .cons ⟨rfl, .none⟩ hall⟩
      · rw [Fd.txrxs, hcall, ok_bind]
        dsimp only
        rw [if_neg (by decide), if_neg herror, hrest, ok_bind]
      · rw [hsent, hsent1]
        simp only [List.append_assoc]
  | polling good there =>
      have hin0 : ctx.fd.incoming = [0] := by
        rw [hin, bytesTo_cons, bytesTo_cons, IpcOut.bytesTo_reply]
        rfl
      obtain ⟨ctx', hcall, herror, hsent⟩ := sricTxrx_polling good hin0
      refine ⟨ctx', [], ?_, hsent, .nil⟩
      rw [Fd.txrxs, hcall, ok_bind]
      dsimp only
      rw [if_neg (by decide), if_pos herror]
  | answered good there short rest ih =>
      rw [bytesTo_cons, bytesTo_cons, bytesTo_cons, IpcOut.bytesTo_reply, IpcOut.bytesTo_reply] at hin
      obtain ⟨ctx1, r, hcall, hreceived, hin1, hsent1⟩ := sricTxrx_answered good short hin
      obtain ⟨ctx', rs', hrest, hsent, hall⟩ := ih hin1
      refine ⟨ctx', (_, some r) :: rs', ?_, ?_, .cons ⟨rfl, .some hreceived⟩ hall⟩
      · rw [Fd.txrxs, hcall, ok_bind]
        dsimp only
        rw [if_pos rfl, hrest, ok_bind]
      · rw [hsent, hsent1]
        simp only [List.append_assoc]

/-- Before the first reply. -/
theorem start (known : Nat → Bool) (c : Nat) (gs : List SricFrame) :
    ∃ rs q, Dialogue known c gs [] [] rs q := by
  induction gs with
  | nil => exact ⟨[], none, .returned⟩
  | cons g gs ih =>
      by_cases hg : checkFrame g = none
      · exact ⟨[], _, .sending hg⟩
      · obtain ⟨rs, q, h⟩ := ih
        exact ⟨_, q, .bad hg h⟩

/-- As long as there is no reply, nobody has asked who is there. -/
theorem unasked (h : Dialogue known c gs out done rs q) (hout : out = []) (known' : Nat → Bool) :
    Dialogue known' c gs out done rs q := by
  induction h with
  | returned => exact .returned
  | bad bad rest ih => exact .bad bad (ih hout)
  | sending good => exact .sending good
  | unknown | polling | answered => cases hout

theorem plain (h : Dialogue known c gs out done rs q) : ∀ p, q = some p → p.Plain := by
  induction h with
  | returned => exact fun p hp => by cases hp
  | bad _ _ ih => exact ih
  | unknown _ _ _ ih => exact ih
  | answered _ _ _ _ ih => exact ih
  | sending =>
      intro p hp
      cases hp
      exact trivial
  | polling =>
      intro p hp
      cases hp
      exact ⟨rfl, rfl⟩

/-- **The reply to the pending request** takes the calls one step
further. -/
theorem replied {P : Platform} {d : Devices} {p : Request} {o : List IpcOut}
    (h : Dialogue (d.known P) c gs out done rs q) (hq : q = some p)
    (hp : Ipc.Replied P d c p o) (hshort : ∀ f ∈ framesTo c o, f.payload.length ≤ payloadMax) :
    ∃ rs' q', Dialogue (d.known P) c gs (out ++ o) (done ++ p.bytes) rs' q' := by
  induction h with
  | returned => cases hq
  | bad bad rest ih =>
      obtain ⟨rs', q', h'⟩ := ih hq
      exact ⟨_, q', .bad bad h'⟩
  | unknown good absent rest ih =>
      obtain ⟨rs', q', h'⟩ := ih hq
      rw [List.append_assoc]
      exact ⟨_, q', .unknown good absent h'⟩
  | answered good there short rest ih =>
      obtain ⟨rs', q', h'⟩ := ih hq
      rw [List.append_assoc]
      exact ⟨_, q', .answered good there short h'⟩
  | @sending g gs good =>
      cases hq
      have haddr := toNat_truncate16 (checkFrame_none good).1
      cases hp with
      | sent fits there =>
          rw [haddr] at there
          have hframe : g.frameT c = ⟨.sric, (g.address.truncate 16).toNat, .client c, g.sent, fits⟩ := by
            simp only [SricFrame.frameT, haddr]
          rw [← hframe]
          exact ⟨[], _, .polling good there⟩
      | refused absent =>
          rw [haddr] at absent
          obtain ⟨rs', q', h'⟩ := start (d.known P) c gs
          have := Dialogue.unknown good absent h'
          rw [List.append_nil] at this
          exact ⟨_, q', this⟩
  | @polling g gs good there =>
      cases hq
      cases hp with
      | polled f =>
          obtain ⟨rs', q', h'⟩ := start (d.known P) c gs
          have hf : f.payload.length ≤ payloadMax := hshort f (by simp [framesTo, IpcOut.frameTo])
          have := Dialogue.answered good there hf h'
          rw [List.append_nil] at this
          exact ⟨_, q', this⟩

/-! ### What has been said -/

/-- The frames that the client has been sent. -/
theorem received (h : Dialogue known c gs out done rs q) :
    framesTo c out = (withResponse rs).map Prod.snd := by
  have hcons : ∀ (o : IpcOut) (out : List IpcOut),
      framesTo c (o :: out) = (o.frameTo c).toList ++ framesTo c out := by
    intro o out
    rw [framesTo, List.filterMap_cons]
    cases o.frameTo c <;> rfl
  induction h with
  | returned | sending => rfl
  | bad _ _ ih => exact ih
  | unknown _ _ _ ih => exact ih
  | polling => simp [framesTo, IpcOut.frameTo]
  | answered _ _ _ _ ih => simp [hcons, ih, IpcOut.frameTo]

/-- The frames that the client has had sent: one for each response, and the
one whose response is waited for. -/
theorem requested (h : Dialogue known c gs out done rs q) :
    ∃ more, out.filterMap (IpcOut.frameOf c) = (withResponse rs).map (fun p => p.1.frameT c) ++ more
      ∧ (q = some .await → more ≠ []) := by
  have hframe : ∀ g : SricFrame, IpcOut.frameOf c (.push (g.frameT c)) = some (g.frameT c) :=
    fun _ => if_pos rfl
  induction h with
  | returned => exact ⟨[], rfl, fun h => by cases h⟩
  | sending => exact ⟨[], rfl, fun h => by cases h⟩
  | bad _ _ ih => exact ih
  | unknown _ _ _ ih => exact ih
  | @polling g gs =>
      refine ⟨[g.frameT c], ?_, fun _ => List.cons_ne_nil _ _⟩
      rw [List.filterMap_cons_some (hframe g), List.filterMap_cons_none rfl]
      rfl
  | @answered g _ _ _ _ _ _ _ _ _ _ ih =>
      obtain ⟨more, heq, hmore⟩ := ih
      refine ⟨more, ?_, hmore⟩
      rw [List.filterMap_cons_some (hframe g), List.filterMap_cons_none rfl,
        List.filterMap_cons_none rfl, heq]
      rfl

theorem not_cancelled (h : Dialogue known c gs out done rs q) : .cancel c ∉ out := by
  induction h with
  | returned | sending => exact List.not_mem_nil
  | bad _ _ ih => exact ih
  | unknown _ _ _ ih => simpa using ih
  | polling => simp
  | answered _ _ _ _ ih => simpa using ih

/-- The calls that fail are those with a bad frame, and those for a device
that is not there. -/
theorem failed (h : Dialogue known c gs out done rs q) :
    ∀ p ∈ rs, p.2 = none ↔ checkFrame p.1 ≠ none ∨ known p.1.address.toNat = false := by
  induction h with
  | returned | sending | polling => exact fun p hp => absurd hp List.not_mem_nil
  | bad bad _ ih => exact List.forall_mem_cons.mpr ⟨by simp [bad], ih⟩
  | unknown _ absent _ ih => exact List.forall_mem_cons.mpr ⟨by simp [absent], ih⟩
  | answered good there _ _ ih => exact List.forall_mem_cons.mpr ⟨by simp [good, there], ih⟩

/-- The calls return in their order. Where no reply is due, all of them
have. -/
theorem calls (h : Dialogue known c gs out done rs q) :
    ∃ gs', gs = rs.map Prod.fst ++ gs' ∧ (q = none → gs' = []) := by
  induction h with
  | returned => exact ⟨[], rfl, fun _ => rfl⟩
  | sending | polling => exact ⟨_, rfl, fun h => by cases h⟩
  | bad _ _ ih =>
      obtain ⟨gs', rfl, hnone⟩ := ih
      exact ⟨gs', rfl, hnone⟩
  | unknown _ _ _ ih =>
      obtain ⟨gs', rfl, hnone⟩ := ih
      exact ⟨gs', rfl, hnone⟩
  | answered _ _ _ _ ih =>
      obtain ⟨gs', rfl, hnone⟩ := ih
      exact ⟨gs', rfl, hnone⟩

end

end Dialogue

end Sricd
