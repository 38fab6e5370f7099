import Sricd.Conversations
import Sricd.Service

/-!
# A client that takes turns

A client that makes its next request when it has the reply to the last one,
and polls for responses without a timeout. The other clients do what they
like. Whatever happens, the client's request is unread, or it is a poll and
waits, or it has the one reply that is due to it (`Daemon.run_turn`).
-/

namespace Sricd

open Sricd.Lib

/-! ## What concerns a client -/

/-- What leaves the module for a client, or on its behalf. -/
def IpcOut.about (c : Nat) : IpcOut → Bool
  | .reply d _ => d == c
  | .push f => f.tag == .client c
  | .cancel d => d == c

def aboutClient (c : Nat) (out : List IpcOut) : List IpcOut := out.filter (IpcOut.about c)

theorem aboutClient_append (c : Nat) (out out' : List IpcOut) :
    aboutClient c (out ++ out') = aboutClient c out ++ aboutClient c out' := List.filter_append ..

/-- The frames that are written to a client are about it. -/
theorem framesTo_about (c : Nat) (out : List IpcOut) :
    framesTo c (aboutClient c out) = framesTo c out := by
  rw [framesTo, aboutClient, List.filterMap_filter]
  congr 1
  funext o
  cases o with
  | reply d r =>
      by_cases hd : d = c
      · simp [IpcOut.about, hd]
      · cases r <;> simp [IpcOut.about, IpcOut.frameTo, hd]
  | push f => simp [IpcOut.frameTo]
  | cancel d => simp [IpcOut.frameTo]

/-- So are those that it pushes. -/
theorem frameOf_about (c : Nat) (out : List IpcOut) :
    (aboutClient c out).filterMap (IpcOut.frameOf c) = out.filterMap (IpcOut.frameOf c) := by
  rw [aboutClient, List.filterMap_filter]
  congr 1
  funext o
  cases o with
  | reply d r => simp [IpcOut.frameOf]
  | push f =>
      by_cases hf : f.tag = .client c
      · simp [IpcOut.about, hf]
      · simp [IpcOut.about, IpcOut.frameOf, hf]
  | cancel d => simp [IpcOut.frameOf]

/-- The client whose socket or timeout an event is about. -/
def IpcEvent.client : IpcEvent → Option Nat
  | .new _ => none
  | .sent c _ => some c
  | .closed c => some c
  | .incoming _ c _ => some c
  | .death _ c => some c
  | .timeout _ _ c => some c

namespace Ipc

/-- Nothing changes for a client, and nothing leaves that is about it. -/
structure Apart (c : Nat) (s t : Ipc) (out : List IpcOut) : Prop where
  socket : t.sockets c = s.sockets c
  queue : ∀ k, t.queue k c = s.queue k c
  waits : ∀ k, t.waits k c = s.waits k c
  timeouts : ∀ id k, (id, IpcSource.timeout k c) ∈ t.loop.live →
    (id, IpcSource.timeout k c) ∈ s.loop.live
  quiet : aboutClient c out = []

section
variable {P : Platform} {s t u : Ipc} {c d : Nat} {out out' : List IpcOut}

theorem Apart.trans (h : Apart c s t out) (h' : Apart c t u out') : Apart c s u (out ++ out') where
  socket := h'.socket.trans h.socket
  queue k := (h'.queue k).trans (h.queue k)
  waits k := (h'.waits k).trans (h.waits k)
  timeouts id k hl := h.timeouts id k (h'.timeouts id k hl)
  quiet := by rw [aboutClient_append, h.quiet, h'.quiet, List.append_nil]

/-- Only the mail of the others has changed. -/
theorem apart_of_mail (hs : t.sockets c = s.sockets c) (hm : ∀ k, t.mail k c = s.mail k c)
    (hl : ∀ id k, (id, IpcSource.timeout k c) ∈ t.loop.live →
      (id, IpcSource.timeout k c) ∈ s.loop.live)
    (hq : aboutClient c out = []) : Apart c s t out where
  socket := hs
  queue k := by rw [queue, hm, queue]
  waits k := by rw [waits, hm, waits]
  timeouts := hl
  quiet := hq

theorem apart_same (s : Ipc) (hq : aboutClient c out = []) : Apart c s s out :=
  apart_of_mail rfl (fun _ => rfl) (fun _ _ h => h) hq

/-- What is said to another client. -/
theorem about_reply (hd : d ≠ c) (r : Reply) : aboutClient c [.reply d r] = [] := by
  simp [aboutClient, IpcOut.about, hd]

/-- Another client is written, or goes. -/
theorem apart_update (hd : d ≠ c) {cl : Option Client} (hs : t.sockets = s.sockets)
    (hc : t.clients = Function.update s.clients d cl)
    (hl : ∀ id k, (id, IpcSource.timeout k c) ∈ t.loop.live →
      (id, IpcSource.timeout k c) ∈ s.loop.live)
    (hq : aboutClient c out = []) : Apart c s t out := by
  apply apart_of_mail (congrFun hs c) _ hl hq
  intro k
  rw [mail, hc, Function.update_of_ne hd.symm, mail]

/-- A source is removed. -/
theorem apart_drop (s : Ipc) (id : Nat) : Apart c s (s.drop id) [] :=
  apart_of_mail rfl (fun _ => rfl) (fun _ _ h => ((MainLoop.mem_remove ..).mp h).1) rfl

/-- Another client's socket is read from, or written to. -/
theorem apart_setSocket (hd : d ≠ c) (s : Ipc) (k : Socket) : Apart c s (s.setSocket d k) [] :=
  apart_of_mail (Function.update_of_ne hd.symm ..) (fun _ => rfl) (fun _ _ h => h) rfl

/-! ## The other clients -/

theorem transmit_apart (hd : d ≠ c) {f : FrameT} (hf : f.tag = .client d)
    (h : s.transmit P d f = .ok (t, out)) : Apart c s t out := by
  obtain ⟨b, -, h⟩ := bind_ok.mp h
  cases b with
  | false =>
      cases h
      exact apart_same s (about_reply hd _)
  | true =>
      cases h
      exact apart_same s (by simp [aboutClient, IpcOut.about, hf, hd])

theorem poll_apart (hd : d ≠ c) {k : Poll} {timeout : BitVec 32}
    (h : s.poll k d timeout = .ok (t, out)) : Apart c s t out := by
  obtain ⟨cl, -, h⟩ := bind_ok.mp h
  split at h
  · cases h
    exact apart_update hd rfl rfl (fun _ _ h => h) (about_reply hd _)
  · rw [await] at h
    split at h
    · cases h
      exact apart_same s (about_reply hd _)
    · split at h
      · cases h
        exact apart_update hd rfl rfl (fun _ _ h => h) rfl
      · cases h
        refine apart_update hd rfl rfl (fun id j hl => ?_) rfl
        rcases (MainLoop.mem_add ..).mp hl with hl | hl
        · exact hl
        · cases hl
          exact absurd rfl hd

theorem setFlags_apart (hd : d ≠ c) {device : Nat} {flags : BitVec 64}
    (h : s.setFlags P d device flags = .ok (t, out)) : Apart c s t out := by
  obtain ⟨b, -, h⟩ := bind_ok.mp h
  cases b with
  | false =>
      cases h
      exact apart_same s (about_reply hd _)
  | true =>
      obtain ⟨cl, -, h⟩ := bind_ok.mp h
      cases h
      exact apart_update hd rfl rfl (fun _ _ h => h) (about_reply hd _)

theorem clearClientNotes_apart (hd : d ≠ c) (h : s.clearClientNotes P d = .ok t) :
    Apart c s t [] := by
  obtain ⟨cl, -, h⟩ := bind_ok.mp h
  cases h
  exact apart_update hd rfl rfl (fun _ _ h => h) rfl

/-- **What another client asks for** is no concern of this one. -/
theorem serve_apart (hd : d ≠ c) {stale : BitVec 64} {heard : Heard}
    (h : heard.serve P s d stale = .ok (t, out)) : Apart c s t out := by
  cases heard with
  | nothing => cases h
  | overflow => cases h
  | malformed =>
      cases h
      exact apart_same s (about_reply hd _)
  | cutFlags device =>
      obtain ⟨⟨u, o⟩, hu, h⟩ := bind_ok.mp h
      cases h
      exact (apart_same s (about_reply hd _)).trans (setFlags_apart hd hu)
  | request q =>
      cases q with
      | tx address payload hlt =>
          rw [Heard.serve, Request.serve] at h
          split at h
          · exact transmit_apart hd rfl h
          · cases h
      | poll k timeout => exact poll_apart hd h
      | noteFlags device flags => exact setFlags_apart hd h
      | noteClear =>
          obtain ⟨u, hu, h⟩ := bind_ok.mp h
          cases h
          exact (clearClientNotes_apart hd hu).trans (apart_same t (about_reply hd _))
      | listDevices =>
          cases h
          exact apart_same s (about_reply hd _)

theorem clientIncoming_apart (hd : d ≠ c) {id : Nat} {stale : BitVec 64}
    (h : s.clientIncoming P id d stale = .ok (t, out)) : Apart c s t out := by
  cases hin : (s.sockets d).inbox with
  | nil =>
      rw [clientIncoming_end P hin] at h
      split at h
      · cases h
        exact apart_drop s id
      · cases h
  | cons cmd inbox =>
      rw [clientIncoming_hear P hin] at h
      exact (apart_setSocket hd s _).trans (serve_apart hd h)

/-- What comes for another client. -/
theorem clientPush_apart (hm : MailInv s) (hd : d ≠ c) {k : Poll} {f : Frame}
    (h : s.clientPush k d f = .ok (t, out)) : Apart c s t out := by
  obtain ⟨cl, hcl, -⟩ := bind_ok.mp h
  rw [clientPush_live hm (Session.client_ok hcl)] at h
  split at h
  · cases h
    exact apart_update hd rfl rfl (fun _ _ hl => ((MainLoop.mem_remove ..).mp hl).1)
      (about_reply hd _)
  · cases h
    exact apart_update hd rfl rfl (fun _ _ h => h) rfl

theorem timedOut_apart (hd : d ≠ c) {k : Poll} {id : Nat} (h : s.timedOut k id d = .ok (t, out)) :
    Apart c s t out := by
  obtain ⟨cl, -, h⟩ := bind_ok.mp h
  cases h
  exact apart_update hd rfl rfl (fun _ _ hl => ((MainLoop.mem_remove ..).mp hl).1)
    (about_reply hd _)

theorem clientDestroy_apart (hd : d ≠ c) (h : s.clientDestroy P d = .ok (t, out)) :
    Apart c s t out := by
  obtain ⟨u, hu, h⟩ := bind_ok.mp h
  cases h
  have hcancel : aboutClient c [.cancel d] = [] := by simp [aboutClient, IpcOut.about, hd]
  exact (clearClientNotes_apart hd hu).trans (apart_update hd rfl rfl (fun _ _ h => h) hcancel)

/-- Somebody connects. -/
theorem new_apart (hm : MailInv s) : Apart c s s.new [] := by
  have htimeouts : ∀ id k, (id, IpcSource.timeout k c) ∈ s.new.loop.live →
      (id, IpcSource.timeout k c) ∈ s.loop.live := by
    intro id k hl
    rcases new_live.mp hl with hl | ⟨-, hk⟩ | ⟨-, hk⟩
    · exact hl
    · cases hk
    · cases hk
  by_cases hc : c = s.accepted
  · have hnone : ∀ k, s.mail k c = none := fun k =>
      mail_none.mpr (hm.unborn c (Nat.le_of_eq hc.symm))
    have hnew : ∀ k, s.new.mail k c = some ([], false) := by
      intro k
      have hcreate : s.new.clients c = some .create := by
        rw [hc]
        exact Function.update_self ..
      rw [mail_eq hcreate]
      rfl
    constructor
    case socket => rfl
    case queue =>
      intro k
      rw [queue, hnew, queue, hnone]
      rfl
    case waits =>
      intro k
      rw [waits, hnew, waits, hnone]
      rfl
    case timeouts => exact htimeouts
    case quiet => rfl
  · exact apart_update (Ne.symm hc) rfl rfl htimeouts rfl

/-- **An event of another client** is no concern of this one. -/
theorem step_apart (hm : MailInv s) {ev : IpcEvent} (hev : ev.client ≠ some c)
    (hs : s.step P ev = .ok (t, out)) : Apart c s t out := by
  have hh := (step_handle hs).2
  have hne : ∀ {d : Nat}, some d ≠ some c → d ≠ c := fun h hx => h (congrArg some hx)
  cases ev with
  | new id =>
      cases hh
      exact new_apart hm
  | sent d bytes =>
      simp only [handle] at hh
      split at hh
      · cases hh
        exact apart_setSocket (hne hev) s _
      · cases hh
  | closed d =>
      simp only [handle] at hh
      split at hh
      · cases hh
        exact apart_setSocket (hne hev) s _
      · cases hh
  | incoming id d stale => exact clientIncoming_apart (hne hev) hh
  | death id d =>
      simp only [handle] at hh
      split at hh
      · obtain ⟨⟨u, o⟩, hu, hh⟩ := bind_ok.mp hh
        cases hh
        have := (clientDestroy_apart (hne hev) hu).trans (apart_drop u id)
        rwa [List.append_nil] at this
      · cases hh
  | timeout k id d =>
      cases k with
      | note => exact timedOut_apart (hne hev) hh
      | rx =>
          obtain ⟨⟨u, o⟩, hu, hh⟩ := bind_ok.mp hh
          cases hh
          have hcancel : aboutClient c [.cancel d] = [] := by
            simp [aboutClient, IpcOut.about, hne hev]
          exact (apart_same s hcancel).trans (timedOut_apart (hne hev) hu)

end

end Ipc

/-! ## Taking turns -/

/-- A request for a frame to be sent, or for a response without a
timeout. -/
def Request.Plain : Request → Prop
  | .tx _ _ _ => True
  | .poll k t => k = .rx ∧ t = -1
  | _ => False

namespace Ipc

/-- What has become of the request of a client, where it has no reply
yet. -/
inductive Turn (s : Ipc) (c : Nat) : Option Request → Prop where
  | idle (read : (s.sockets c).inbox = []) (quiet : ∀ k, s.waits k c = false) : Turn s c none
  | unread (q : Request) (unread : (s.sockets c).inbox = q.bytes)
      (quiet : ∀ k, s.waits k c = false) : Turn s c (some q)
  | waiting (read : (s.sockets c).inbox = []) (waits : s.waits .rx c = true)
      (quiet : s.waits .note c = false) : Turn s c (some (.poll .rx (-1)))

/-- The client has no timeout, and has not gone. -/
structure InTurn (asked : Option Request) (s : Ipc) (c : Nat) : Prop where
  turn : Turn s c asked
  plain : ∀ q, asked = some q → q.Plain
  untimed : ∀ id k, (id, IpcSource.timeout k c) ∉ s.loop.live
  opened : (s.sockets c).closed = false

/-- What the reply to a request says, and what is done about it. -/
inductive Replied (P : Platform) (d : Devices) (c : Nat) : Request → List IpcOut → Prop where
  | sent {address : BitVec 16} {payload : List Byte} {hlt : payload.length < 2 ^ 16}
      (fits : payload.length ≤ payloadMax) (known : d.known P address.toNat = true) :
      Replied P d c (.tx address payload hlt)
        [.push ⟨.sric, address.toNat, .client c, payload, fits⟩, .reply c (.status eSuccess)]
  | refused {address : BitVec 16} {payload : List Byte} {hlt : payload.length < 2 ^ 16}
      (unknown : d.known P address.toNat = false) :
      Replied P d c (.tx address payload hlt) [.reply c (.status eBadAddr)]
  | polled (f : Frame) : Replied P d c (.poll .rx (-1)) [.reply c (.frame f)]

/-- Of the devices it matters which are known. -/
theorem Replied.congr {P : Platform} {d d' : Devices} {c : Nat} {q : Request} {out : List IpcOut}
    (hk : ∀ a, d'.known P a = d.known P a) (h : Replied P d' c q out) : Replied P d c q out := by
  cases h with
  | sent fits known => exact .sent fits ((hk _).symm.trans known)
  | refused unknown => exact .refused ((hk _).symm.trans unknown)
  | polled f => exact .polled f

/-- A step as the client sees it: either nothing is said to it, or it has
the reply to its request. -/
def TakesTurn (P : Platform) (d : Devices) (asked : Option Request) (c : Nat) (t : Ipc)
    (out : List IpcOut) : Prop :=
  (aboutClient c out = [] ∧ InTurn asked t c)
    ∨ ∃ q, asked = some q ∧ Replied P d c q (aboutClient c out) ∧ InTurn none t c

/-- What comes from the bus, with the responses to the client among it:
they are queued, but for one that a poll waits for. -/
structure Comes (asked : Option Request) (c : Nat) (s t : Ipc) (out : List IpcOut)
    (added : List Frame) : Prop where
  turn : (aboutClient c out = [] ∧ InTurn asked t c)
    ∨ asked = some (.poll .rx (-1)) ∧ (∃ f, aboutClient c out = [.reply c (.frame f)])
      ∧ InTurn none t c
  queue : framesTo c out ++ t.queue .rx c = s.queue .rx c ++ added

section
variable {P : Platform} {s t u : Ipc} {c : Nat} {asked : Option Request} {out : List IpcOut}

/-- What is no concern of the client leaves its turn alone. -/
theorem Apart.inTurn (ha : Apart c s t out) (h : InTurn asked s c) : InTurn asked t c where
  turn := by
    have hread : ∀ b, (s.sockets c).inbox = b → (t.sockets c).inbox = b := fun b hb => by
      rw [ha.socket, hb]
    cases h.turn with
    | idle hin hw => exact .idle (hread _ hin) fun k => (ha.waits k).trans (hw k)
    | unread q hin hw => exact .unread q (hread _ hin) fun k => (ha.waits k).trans (hw k)
    | waiting hin hrx hn =>
        exact .waiting (hread _ hin) ((ha.waits .rx).trans hrx) ((ha.waits .note).trans hn)
  plain := h.plain
  untimed id k hl := h.untimed id k (ha.timeouts id k hl)
  opened := by rw [ha.socket, h.opened]

theorem Apart.framesTo (ha : Apart c s t out) : framesTo c out = [] := by
  rw [← framesTo_about, ha.quiet]
  rfl

theorem Apart.comes (ha : Apart c s t out) (h : InTurn asked s c) : Comes asked c s t out [] where
  turn := .inl ⟨ha.quiet, ha.inTurn h⟩
  queue := by rw [ha.framesTo, ha.queue, List.nil_append, List.append_nil]

theorem Comes.append {added added' : List Frame} {out' : List IpcOut}
    (h : Comes asked c s t out added)
    (h' : ∀ asked', InTurn asked' t c → Comes asked' c t u out' added') :
    Comes asked c s u (out ++ out') (added ++ added') := by
  have hqueue : ∀ asked', InTurn asked' t c →
      framesTo c (out ++ out') ++ u.queue .rx c = s.queue .rx c ++ (added ++ added') := by
    intro asked' ht
    rw [framesTo_append, List.append_assoc, (h' asked' ht).queue, ← List.append_assoc, h.queue,
      List.append_assoc]
  rcases h.turn with ⟨hnone, ht⟩ | ⟨hasked, ⟨f, hf⟩, ht⟩
  · refine ⟨?_, hqueue asked ht⟩
    rw [aboutClient_append, hnone, List.nil_append]
    exact (h' asked ht).turn
  · refine ⟨?_, hqueue none ht⟩
    rcases (h' none ht).turn with ⟨hnone, hu⟩ | ⟨hno, -⟩
    · right
      rw [aboutClient_append, hnone, List.append_nil]
      exact ⟨hasked, ⟨f, hf⟩, hu⟩
    · cases hno

/-- The mail of a client that is written back. -/
theorem waits_setBox {cl : Client} (hc : s.clients c = some cl) (l : MainLoop IpcSource) (k : Poll)
    (m : Mailbox) (j : Poll) :
    ({ s with loop := l }.setClient c (cl.setBox k m)).waits j c
      = if j = k then m.ping else s.waits j c := by
  rw [waits, mail_setBox hc]
  by_cases hj : j = k
  · rw [if_pos ⟨hj, rfl⟩, if_pos hj]
    rfl
  · rw [if_neg fun h => hj h.1, if_neg hj, waits]

theorem queue_setBox {cl : Client} (hc : s.clients c = some cl) (l : MainLoop IpcSource) (k : Poll)
    (m : Mailbox) (j : Poll) :
    ({ s with loop := l }.setClient c (cl.setBox k m)).queue j c
      = if j = k then m.q else s.queue j c := by
  rw [queue, mail_setBox hc]
  by_cases hj : j = k
  · rw [if_pos ⟨hj, rfl⟩, if_pos hj]
    rfl
  · rw [if_neg fun h => hj h.1, if_neg hj, queue]

/-- **What comes from the bus for the client** is queued, or it is the
reply to the poll that waits. -/
theorem clientPush_comes (hm : MailInv s) (h : InTurn asked s c) {k : Poll} {f : Frame}
    (hs : s.clientPush k c f = .ok (t, out)) :
    Comes asked c s t out (if k = .rx then [f] else []) := by
  obtain ⟨cl, hcl, -⟩ := bind_ok.mp hs
  have hc := Session.client_ok hcl
  have hw : ∀ j, s.waits j c = (cl.box j).ping := fun j => by rw [waits, mail_eq hc, Option.any_some]
  rw [clientPush_live hm hc] at hs
  by_cases hp : (cl.box k).ping = true
  · rw [if_pos hp] at hs
    cases hs
    have hnil := hm.idle hc hp
    cases h.turn with
    | idle _ hq => exact absurd ((hw k).trans hp) (by simp [hq k])
    | unread _ _ hq => exact absurd ((hw k).trans hp) (by simp [hq k])
    | waiting hin hrx hn =>
        obtain rfl : k = .rx := by
          cases k with
          | rx => rfl
          | note => exact absurd ((hw .note).trans hp) (by simp [hn])
        refine ⟨.inr ⟨rfl, ⟨f, ?_⟩, ?_⟩, ?_⟩
        · simp [aboutClient, IpcOut.about]
        · constructor
          case turn =>
            refine .idle hin fun j => ?_
            rw [waits_setBox hc]
            cases j with
            | rx => rfl
            | note => exact hn
          case plain => exact fun q hq => by cases hq
          case untimed => exact fun id j hl => h.untimed id j ((MainLoop.mem_remove ..).mp hl).1
          case opened => exact h.opened
        · rw [queue_setBox hc, queue_eq hc, hnil]
          simp [framesTo, IpcOut.frameTo]
  · rw [if_neg hp] at hs
    cases hs
    have hsame : ∀ j, (s.setClient c (cl.setBox k ⟨(cl.box k).q ++ [f], (cl.box k).timer,
        (cl.box k).ping⟩)).waits j c = s.waits j c := by
      intro j
      refine (waits_setBox hc s.loop k _ j).trans ?_
      by_cases hj : j = k
      · rw [if_pos hj, hj, hw]
      · rw [if_neg hj]
    refine ⟨.inl ⟨rfl, ?_, h.plain, h.untimed, h.opened⟩, ?_⟩
    · cases h.turn with
      | idle hin hq => exact .idle hin fun j => (hsame j).trans (hq j)
      | unread q hin hq => exact .unread q hin fun j => (hsame j).trans (hq j)
      | waiting hin hrx hn => exact .waiting hin ((hsame .rx).trans hrx) ((hsame .note).trans hn)
    · have hqueue := queue_setBox hc s.loop k ⟨(cl.box k).q ++ [f], (cl.box k).timer,
        (cl.box k).ping⟩ .rx
      show [] ++ _ = _
      rw [List.nil_append]
      refine Eq.trans hqueue ?_
      cases k with
      | rx => rw [if_pos rfl, if_pos rfl, queue_eq hc]
      | note => simp

/-- A note that is dispatched. -/
theorem pushNotes_comes (hm : MailInv s) (h : InTurn asked s c) {note : Frame} {cs : List Nat}
    (hs : s.pushNotes note cs = .ok (t, out)) : Comes asked c s t out [] := by
  induction cs generalizing asked s out with
  | nil =>
      cases hs
      exact (apart_same _ rfl).comes h
  | cons d cs ih =>
      obtain ⟨⟨u, o⟩, hu, hs⟩ := bind_ok.mp hs
      obtain ⟨⟨v, os⟩, hv, hs⟩ := bind_ok.mp hs
      cases hs
      have hmu : MailInv u := (clientPush_carries hm hu).inv
      have hpush : Comes asked c s u o [] := by
        by_cases hd : d = c
        · rw [hd] at hu
          exact clientPush_comes hm h hu
        · exact (clientPush_apart hm hd hu).comes h
      exact hpush.append fun asked' ht => ih hmu ht hv

/-- A call of the serial interface. -/
theorem call_comes (hm : MailInv s) (h : InTurn asked s c) {o : IfOut}
    (hs : s.call P o = .ok (t, out)) : Comes asked c s t out (o.responseTo c).toList := by
  cases o with
  | wrote | free =>
      cases hs
      exact (apart_same s rfl).comes h
  | pushRx tag f =>
      cases tag with
      | null => cases hs
      | badEnum => cases hs
      | client d =>
          rw [IfOut.responseTo]
          by_cases hd : d = c
          · rw [if_pos hd]
            rw [hd] at hs
            exact clientPush_comes hm h hs
          · rw [if_neg hd]
            exact (clientPush_apart hm hd hs).comes h
  | note f =>
      rw [call, dispatchNote] at hs
      split at hs
      · exact pushNotes_comes hm h hs
      · cases hs
  | deviceAdd address type =>
      cases hs
      have hsame : Apart c s { s with devices := s.devices.deviceAdd address type } [] :=
        apart_of_mail rfl (fun _ => rfl) (fun _ _ h => h) rfl
      exact hsame.comes h
  | listen =>
      cases hs
      have hsame : Apart c s s.listen [] := by
        refine apart_of_mail rfl (fun _ => rfl) (fun id k hl => ?_) rfl
        rcases (MainLoop.mem_add ..).mp hl with hl | hl
        · exact hl
        · cases hl
      exact hsame.comes h

/-- **What the serial interface brings**: the responses to the client wait
in their order, but for one that is asked for. -/
theorem calls_comes (hm : MailInv s) (h : InTurn asked s c) {os : List IfOut}
    (hs : s.calls P os = .ok (t, out)) :
    Comes asked c s t out (os.filterMap (IfOut.responseTo c)) := by
  induction os generalizing asked s out with
  | nil =>
      cases hs
      exact (apart_same _ rfl).comes h
  | cons o os ih =>
      obtain ⟨⟨u, out₁⟩, hu, hs⟩ := bind_ok.mp hs
      obtain ⟨⟨v, out₂⟩, hv, hs⟩ := bind_ok.mp hs
      cases hs
      obtain ⟨ps, hps, -⟩ := call_makes hu
      have hmu : MailInv u := (run_carries hm hps).inv
      have hsplit : (o :: os).filterMap (IfOut.responseTo c)
          = (o.responseTo c).toList ++ os.filterMap (IfOut.responseTo c) := by
        rw [List.filterMap_cons]
        cases o.responseTo c <;> rfl
      rw [hsplit]
      exact (call_comes hm h hu).append fun asked' ht => ih hmu ht hv

/-- Behind a poll that waits nothing is queued. -/
theorem MailInv.waits_queue (hm : MailInv s) {k : Poll} (hw : s.waits k c = true) :
    s.queue k c = [] := by
  rw [waits] at hw
  cases hmail : s.mail k c with
  | none => rw [queue, hmail]; rfl
  | some m =>
      obtain ⟨q, ping⟩ := m
      rw [hmail, Option.any_some] at hw
      obtain rfl : ping = true := hw
      rw [queue, hmail, hm.waiting k c q hmail]
      rfl

/-! ## The client's own requests -/

/-- Where nothing is left to be read, there is nothing to be called for. -/
theorem clientIncoming_blocks (hin : (s.sockets c).inbox = []) (ho : (s.sockets c).closed = false)
    (id : Nat) (stale : BitVec 64) : s.clientIncoming P id c stale = .error .disabled := by
  rw [clientIncoming_end P hin, ho]
  rfl

theorem transmit_replied {address : BitVec 16} {payload : List Byte}
    {hlt : payload.length < 2 ^ 16} (hfit : payload.length ≤ payloadMax)
    (hs : s.transmit P c ⟨.sric, address.toNat, .client c, payload, hfit⟩ = .ok (t, out)) :
    Replied P s.devices c (.tx address payload hlt) (aboutClient c out) ∧ t = s ∧ framesTo c out = [] := by
  obtain ⟨b, hb, hs⟩ := bind_ok.mp hs
  have hexists := Devices.deviceExists_ok.mp hb
  cases b with
  | false =>
      cases hs
      refine ⟨?_, rfl, rfl⟩
      have habout : aboutClient c [.reply c (.status eBadAddr)] = [.reply c (.status eBadAddr)] := by
        simp [aboutClient, IpcOut.about]
      rw [habout]
      exact .refused hexists.2
  | true =>
      cases hs
      refine ⟨?_, rfl, rfl⟩
      have habout : ∀ f : FrameT, f.tag = .client c →
          aboutClient c [.push f, .reply c (.status eSuccess)]
            = [.push f, .reply c (.status eSuccess)] := by
        intro f hf
        simp [aboutClient, IpcOut.about, hf]
      rw [habout _ rfl]
      exact .sent hfit hexists.2

/-- A poll without a timeout has its frame, or waits. -/
theorem poll_turn (hin : (s.sockets c).inbox = []) (hw : ∀ k, s.waits k c = false)
    (hu : ∀ id k, (id, IpcSource.timeout k c) ∉ s.loop.live) (ho : (s.sockets c).closed = false)
    (hs : s.poll .rx c (-1) = .ok (t, out)) :
    TakesTurn P s.devices (some (.poll .rx (-1))) c t out
      ∧ framesTo c out ++ t.queue .rx c = s.queue .rx c := by
  obtain ⟨cl, hcl, hs⟩ := bind_ok.mp hs
  have hc := Session.client_ok hcl
  have hping : ∀ k, (cl.box k).ping = false := fun k => by
    have := hw k
    rwa [waits, mail_eq hc, Option.any_some] at this
  split at hs
  · rename_i f cl' hpop
    cases hs
    obtain ⟨⟨g, q⟩, hq, heq⟩ := Option.map_eq_some_iff.mp hpop
    cases heq
    have hwaits : ∀ j, (s.setClient c (cl.setBox .rx { cl.box .rx with q })).waits j c = false := by
      intro j
      refine (waits_setBox hc s.loop .rx _ j).trans ?_
      by_cases hj : j = .rx
      · rw [if_pos hj, hping]
      · rw [if_neg hj, hw]
    refine ⟨.inr ⟨_, rfl, ?_, .idle hin hwaits, fun q hq => (by cases hq), hu, ho⟩, ?_⟩
    · have habout : aboutClient c [.reply c (.frame f)] = [.reply c (.frame f)] := by
        simp [aboutClient, IpcOut.about]
      rw [habout]
      exact .polled f
    · have hqueue := queue_setBox hc s.loop .rx { cl.box .rx with q } .rx
      rw [queue_eq hc, Queue.popTail_some.mp hq]
      have hframes : framesTo c [.reply c (.frame f)] = [f] := by simp [framesTo, IpcOut.frameTo]
      rw [hframes]
      exact congrArg ([f] ++ ·) hqueue
  · rename_i hpop
    have hnil : (cl.box .rx).q = [] := Queue.popTail_none.mp (Option.map_eq_none_iff.mp hpop)
    rw [await, if_neg (by decide), if_pos rfl] at hs
    cases hs
    have hwaits := waits_setBox hc s.loop .rx { cl.box .rx with ping := true }
    refine ⟨.inl ⟨rfl, .waiting hin ((hwaits .rx).trans (if_pos rfl)) ?_, ?_, hu, ho⟩, ?_⟩
    · exact (hwaits .note).trans ((if_neg (by decide)).trans (hw .note))
    · intro q hq
      cases hq
      exact ⟨rfl, rfl⟩
    · have hqueue := queue_setBox hc s.loop .rx { cl.box .rx with ping := true } .rx
      show [] ++ _ = _
      rw [List.nil_append, queue_eq hc]
      exact hqueue

/-- **The client's request is read.** -/
theorem clientIncoming_turn (h : InTurn asked s c) {id : Nat} {stale : BitVec 64}
    (hs : s.clientIncoming P id c stale = .ok (t, out)) :
    TakesTurn P s.devices asked c t out ∧ framesTo c out ++ t.queue .rx c = s.queue .rx c := by
  cases h.turn with
  | idle hin | waiting hin =>
      rw [clientIncoming_blocks hin h.opened] at hs
      cases hs
  | unread q hin hw =>
      rw [clientIncoming_request P hin] at hs
      have hread : ((s.setSocket c ⟨[], (s.sockets c).closed⟩).sockets c) = ⟨[], false⟩ := by
        rw [setSocket_sockets, h.opened]
      cases q with
      | tx address payload hlt =>
          rw [Request.serve] at hs
          split at hs
          · rename_i hfit
            obtain ⟨hreplied, rfl, hnone⟩ := transmit_replied hfit hs
            exact ⟨.inr ⟨_, rfl, hreplied, .idle (by rw [hread]) hw, fun q hq => (by cases hq),
              h.untimed, by rw [hread]⟩, by rw [hnone]; rfl⟩
          · cases hs
      | poll k timeout =>
          obtain ⟨rfl, rfl⟩ := h.plain _ rfl
          rw [Request.serve] at hs
          exact poll_turn (s := s.setSocket c ⟨[], (s.sockets c).closed⟩) (by rw [hread]) hw
            h.untimed (by rw [hread]) hs
      | noteFlags | noteClear | listDevices => exact (h.plain _ rfl).elim

/-- **The client's next request.** -/
theorem sent_turn (h : InTurn none s c) {q : Request} (hq : q.Plain)
    (hs : s.step P (.sent c q.bytes) = .ok (t, out)) :
    out = [] ∧ InTurn (some q) t c ∧ t.queue .rx c = s.queue .rx c := by
  have hh := (step_handle hs).2
  simp only [handle] at hh
  split at hh
  · cases hh
    cases h.turn with
    | idle hin hw =>
        have hsocket : (s.setSocket c ⟨(s.sockets c).inbox ++ q.bytes,
            (s.sockets c).closed⟩).sockets c = ⟨q.bytes, false⟩ := by
          rw [setSocket_sockets, hin, h.opened, List.nil_append]
        refine ⟨rfl, ⟨.unread q (by rw [hsocket]) hw, ?_, h.untimed, by rw [hsocket]⟩, rfl⟩
        intro q' hq'
        cases hq'
        exact hq
  · cases hh

/-- An event of the module that is not the client's doing. -/
theorem step_turn (hm : MailInv s) (h : InTurn asked s c) {ev : IpcEvent}
    (hsent : ∀ bytes, ev ≠ .sent c bytes) (hclosed : ev ≠ .closed c)
    (hs : s.step P ev = .ok (t, out)) :
    TakesTurn P s.devices asked c t out ∧ framesTo c out ++ t.queue .rx c = s.queue .rx c := by
  by_cases hev : ev.client = some c
  · obtain ⟨hlive, hh⟩ := step_handle hs
    cases ev with
    | new id => cases hev
    | sent d bytes =>
        cases hev
        exact absurd rfl (hsent bytes)
    | closed d =>
        cases hev
        exact absurd rfl hclosed
    | incoming id d stale =>
        cases hev
        exact clientIncoming_turn h hh
    | death id d =>
        cases hev
        simp only [handle] at hh
        rw [if_neg (by rw [h.opened]; decide)] at hh
        cases hh
    | timeout k id d =>
        cases hev
        exact absurd (hlive _ rfl) (h.untimed id k)
  · have ha := step_apart hm hev hs
    exact ⟨.inl ⟨ha.quiet, ha.inTurn h⟩, by rw [ha.framesTo, ha.queue, List.nil_append]⟩

end

end Ipc

/-- What a client does itself. -/
def DaemonEvent.isBy (c : Nat) : DaemonEvent → Bool
  | .ipc (.sent d _) => d == c
  | .ipc (.closed d) => d == c
  | _ => false

namespace Daemon

section
variable {P : Platform} {s t : Daemon} {ev : DaemonEvent} {evs : List DaemonEvent}
  {out : List DaemonOut} {c : Nat} {asked : Option Request}

/-- **A step of the daemon** that is not the client's doing. The responses
to the client wait in their order, but for one that it is sent; and it is
sent nothing but the reply to its request. -/
theorem step_turn (hi : s.sricIf.TxInv) (hm : s.ipc.MailInv) (h : Ipc.InTurn asked s.ipc c)
    (hev : ev.isBy c = false) (hs : step P s ev = .ok (t, out)) :
    Ipc.TakesTurn P s.ipc.devices asked c t.ipc (clientOuts out)
      ∧ framesTo c (clientOuts out) ++ t.ipc.queue .rx c
        = s.ipc.queue .rx c ++ (s.responded c ev).map Prod.snd := by
  cases ev with
  | sricIf ev =>
      obtain ⟨os, ipc, outs, -, ht, hcalls, rfl, rfl⟩ := sricIf_ok hs
      have hcomes := Ipc.calls_comes hm h hcalls
      rw [clientOuts_append, clientOuts_sricIf, clientOuts_ipc, List.nil_append]
      refine ⟨?_, ?_⟩
      · rcases hcomes.turn with hquiet | ⟨rfl, ⟨f, hf⟩, ht⟩
        · exact .inl hquiet
        · refine .inr ⟨_, rfl, ?_, ht⟩
          rw [hf]
          exact .polled f
      · rw [hcomes.queue, ← SricIf.responded_frames hi ht]
        rfl
  | ipc ev =>
      obtain ⟨os, hstep, -, rfl⟩ := ipc_ok hs
      rw [clientOuts_append, clientOuts_sricIf, clientOuts_ipc, List.append_nil]
      have hsent : ∀ bytes, ev ≠ .sent c bytes := by
        intro bytes hx
        subst hx
        simp [DaemonEvent.isBy] at hev
      have hclosed : ev ≠ .closed c := by
        intro hx
        subst hx
        simp [DaemonEvent.isBy] at hev
      obtain ⟨hturn, hqueue⟩ := Ipc.step_turn hm h hsent hclosed hstep
      exact ⟨hturn, hqueue.trans (List.append_nil _).symm⟩

/-- The mail stays as it should be. -/
theorem mailInv_step (hm : s.ipc.MailInv) (hs : step P s ev = .ok (t, out)) : t.ipc.MailInv := by
  obtain ⟨ps, hps⟩ := ipc_runs P s ev t out hs
  exact (Ipc.run_carries hm hps).inv

/-- **While the client is waiting**, in any run that is not its doing. It
asks for nothing before enumeration is over. -/
theorem run_turn (hi : Installed s) (hm : s.ipc.MailInv) (h : Ipc.InTurn asked s.ipc c)
    (hover : asked = none ∨ Link.Over s.sricIf) (hevs : ∀ ev ∈ evs, ev.isBy c = false)
    (hr : run (step P) s evs = .ok (t, out)) :
    Ipc.TakesTurn P s.ipc.devices asked c t.ipc (clientOuts out)
      ∧ framesTo c (clientOuts out) ++ t.ipc.queue .rx c
        = s.ipc.queue .rx c ++ (history (step P) (responded c) s evs).map Prod.snd := by
  induction evs generalizing s asked out with
  | nil =>
      cases hr
      exact ⟨.inl ⟨rfl, h⟩, (List.append_nil _).symm⟩
  | cons ev evs ih =>
      obtain ⟨u, o, os, hs, hr', rfl⟩ := run_cons_ok.mp hr
      have hiu := hi.step hs
      have hmu := mailInv_step hm hs
      have hrest := fun ev hev => hevs ev (List.mem_cons_of_mem _ hev)
      obtain ⟨hturn, hqueue⟩ := step_turn hi.inv.txInv hm h (hevs ev List.mem_cons_self) hs
      rw [clientOuts_append, framesTo_append, history, hs, List.map_append, ← List.append_assoc,
        ← hqueue, List.append_assoc, List.append_assoc, Ipc.TakesTurn, aboutClient_append]
      rcases hturn with ⟨hquiet, hu⟩ | ⟨q, rfl, hq, hu⟩
      · -- nothing yet
        have hover' : asked = none ∨ Link.Over u.sricIf :=
          hover.imp id fun hover => over_step hi.inv.txInv hover hs
        obtain ⟨hturn', hqueue'⟩ := ih hiu hmu hu hover' hrest hr'
        rw [hquiet, List.nil_append]
        refine ⟨hturn'.imp id fun hx => ?_, congrArg _ hqueue'⟩
        obtain ⟨q, rfl, hq, ht⟩ := hx
        have hfrozen := frozen hi (hover.resolve_left (by simp)) hs
        exact ⟨q, rfl, hq.congr (known_congr hfrozen), ht⟩
      · -- the reply, and nothing behind it
        obtain ⟨hturn', hqueue'⟩ := ih hiu hmu hu (.inl rfl) hrest hr'
        refine ⟨.inr ⟨q, rfl, ?_⟩, congrArg _ hqueue'⟩
        rcases hturn' with ⟨hquiet, ht⟩ | ⟨q', hno, -⟩
        · rw [hquiet, List.append_nil]
          exact ⟨hq, ht⟩
        · cases hno

end

end Daemon

end Sricd
