import Sricd.Calls

/-!
# The mail of a client

What is received for a client waits in one of two queues until the client
polls for it. A frame leaves its queue in answer to a poll that finds it
there, or to one that already waits when it comes. Either way the frames
reach the client in order, each of them once (`frames_in_order`).
-/

namespace Sricd

open Sricd.Lib

/-- What a call does its work for: responses, notes, or neither. -/
def ClientCall.kind : ClientCall → Option Poll
  | .request _ (.poll k _) => some k
  | .push k _ _ => some k
  | .dispatchNote _ => some .note
  | _ => none

/-- The clients that a call destroys. -/
def ClientCall.ended : ClientCall → List Nat
  | .destroy c => [c]
  | _ => []

/-- The frame that a client gets. -/
def IpcOut.frameTo (c : Nat) : IpcOut → Option Frame
  | .reply d (.frame f) => if d = c then some f else none
  | _ => none

namespace Ipc

/-- What leaves the module in a call. -/
def outputs : Result → List IpcOut
  | .ok (_, out) => out
  | .error _ => []

/-- The frames of a kind that a call passes to `send_rx` for a client. -/
def delivered (P : Platform) (k : Poll) (c : Nat) (s : Ipc) (call : ClientCall) : List Frame :=
  if call.kind = some k then (outputs (s.perform P call)).filterMap (IpcOut.frameTo c) else []

/-- The frames of a kind that a call pushes for a client. -/
def pushed (P : Platform) (k : Poll) (c : Nat) (s : Ipc) : ClientCall → List Frame
  | .push j d f => if j = k ∧ d = c then [f] else []
  | .dispatchNote note =>
      if k = .note then ((s.devices.noteClients P note).filter (· = c)).map fun _ => note else []
  | _ => []

/-- The queue of a client, and whether a poll waits behind it. -/
def mail (s : Ipc) (k : Poll) (c : Nat) : Option (List Frame × Bool) :=
  (s.clients c).map fun cl => ((cl.box k).q, (cl.box k).ping)

def queue (s : Ipc) (k : Poll) (c : Nat) : List Frame := (s.mail k c).elim [] Prod.fst

/-- The client has been destroyed. -/
def Gone (s : Ipc) (c : Nat) : Prop := c < s.accepted ∧ s.clients c = none

/-- **No poll waits in front of a queue**, and a client is not allocated
before it connects. -/
structure MailInv (s : Ipc) : Prop where
  waiting : ∀ k c q, s.mail k c = some (q, true) → q = []
  unborn : ∀ c, s.accepted ≤ c → s.clients c = none

theorem mailInv_init : MailInv .init where
  waiting _ _ _ h := by cases h
  unborn _ _ := rfl

/-- What is sent and what is then left is what was there and what is added,
for every client but those that are destroyed. -/
structure Carries (s t : Ipc) (ended : List Nat) (sent added : Poll → Nat → List Frame) :
    Prop where
  inv : MailInv t
  gone : ∀ c, t.Gone c ↔ s.Gone c ∨ c ∈ ended
  law : ∀ k c, ¬t.Gone c → sent k c ++ t.queue k c = s.queue k c ++ added k c

section
variable {s t u : Ipc} {k : Poll} {c : Nat} {cl : Client}

theorem mail_eq (h : s.clients c = some cl) (k : Poll) :
    s.mail k c = some ((cl.box k).q, (cl.box k).ping) := by
  rw [mail, h, Option.map_some]

theorem queue_eq (h : s.clients c = some cl) (k : Poll) : s.queue k c = (cl.box k).q := by
  rw [queue, mail_eq h, Option.elim_some]

theorem mail_none : s.mail k c = none ↔ s.clients c = none := Option.map_eq_none_iff

theorem mail_setClient (s : Ipc) (c : Nat) (cl : Client) (k : Poll) (d : Nat) :
    (s.setClient c cl).mail k d
      = if d = c then some ((cl.box k).q, (cl.box k).ping) else s.mail k d := by
  show (Function.update s.clients c (some cl) d).map _ = _
  rw [Function.update_apply]
  by_cases hd : d = c
  · rw [if_pos hd, if_pos hd, Option.map_some]
  · rw [if_neg hd, if_neg hd, mail]

/-- A client is written back with one mailbox changed. -/
theorem mail_setBox (h : s.clients c = some cl) (l : MainLoop IpcSource) (k : Poll) (m : Mailbox)
    (j : Poll) (d : Nat) :
    ({ s with loop := l }.setClient c (cl.setBox k m)).mail j d
      = if j = k ∧ d = c then some (m.q, m.ping) else s.mail j d := by
  rw [mail_setClient, Client.setBox_box, show ({ s with loop := l } : Ipc).mail j d = s.mail j d from rfl]
  by_cases hd : d = c
  · by_cases hj : j = k
    · rw [if_pos hd, if_pos hj, if_pos ⟨hj, hd⟩]
    · rw [if_pos hd, if_neg hj, if_neg fun h => hj h.1, hd, mail_eq h]
  · rw [if_neg hd, if_neg fun h => hd h.2]

theorem Carries.refl (h : MailInv s) : Carries s s [] (fun _ _ => []) (fun _ _ => []) :=
  ⟨h, fun _ => (or_iff_left List.not_mem_nil).symm, fun _ _ _ => (List.append_nil _).symm⟩

theorem Carries.trans {ended ended' : List Nat} {sent sent' added added' : Poll → Nat → List Frame}
    (h : Carries s t ended sent added) (h' : Carries t u ended' sent' added') :
    Carries s u (ended ++ ended') (fun k c => sent k c ++ sent' k c)
      (fun k c => added k c ++ added' k c) where
  inv := h'.inv
  gone c := by rw [h'.gone, h.gone, List.mem_append, or_assoc]
  law k c hc := by
    calc sent k c ++ sent' k c ++ u.queue k c
        = sent k c ++ (sent' k c ++ u.queue k c) := List.append_assoc ..
      _ = sent k c ++ (t.queue k c ++ added' k c) := by rw [h'.law k c hc]
      _ = sent k c ++ t.queue k c ++ added' k c := (List.append_assoc ..).symm
      _ = s.queue k c ++ added k c ++ added' k c := by
        rw [h.law k c fun hg => hc ((h'.gone c).mpr (.inl hg))]
      _ = s.queue k c ++ (added k c ++ added' k c) := List.append_assoc ..

theorem Carries.congr {ended : List Nat} {sent sent' added added' : Poll → Nat → List Frame}
    (h : Carries s t ended sent added) (hs : ∀ k c, sent' k c = sent k c)
    (ha : ∀ k c, added' k c = added k c) : Carries s t ended sent' added' where
  inv := h.inv
  gone := h.gone
  law k c hc := by
    rw [hs, ha]
    exact h.law k c hc

/-- The mail stays as it is. -/
theorem carries_same (h : MailInv s) (hm : ∀ k c, t.mail k c = s.mail k c)
    (ha : t.accepted = s.accepted) : Carries s t [] (fun _ _ => []) (fun _ _ => []) where
  inv := by
    constructor
    · intro k c q hq
      exact h.waiting k c q (hm k c ▸ hq)
    · intro c hc
      exact mail_none.mp ((hm .rx c).trans (mail_none.mpr (h.unborn c (ha ▸ hc))))
  gone c := by
    rw [or_iff_left List.not_mem_nil, Gone, Gone, ← mail_none (k := .rx), hm, mail_none, ha]
  law k c _ := by rw [queue, hm, List.append_nil, queue, List.nil_append]

/-- One mailbox changes. -/
theorem carries_box (h : MailInv s) (sent added : List Frame) {q q' : List Frame} {p p' : Bool}
    (hq : s.mail k c = some (q, p))
    (hm : ∀ j d, t.mail j d = if j = k ∧ d = c then some (q', p') else s.mail j d)
    (ha : t.accepted = s.accepted) (hp : p' = true → q' = [])
    (hlaw : sent ++ q' = q ++ added) :
    Carries s t [] (fun j d => if j = k ∧ d = c then sent else [])
      (fun j d => if j = k ∧ d = c then added else []) := by
  have hnone : ∀ d, t.clients d = none ↔ s.clients d = none := by
    intro d
    rw [← mail_none (k := k), ← mail_none (k := k), hm]
    by_cases hd : d = c
    · rw [if_pos ⟨rfl, hd⟩, hd, hq]
      simp
    · rw [if_neg fun h => hd h.2]
  constructor
  case inv =>
    constructor
    · intro j d r hr
      rw [hm] at hr
      split at hr
      · cases hr
        exact hp rfl
      · exact h.waiting j d r hr
    · intro d hd
      exact (hnone d).mpr (h.unborn d (ha ▸ hd))
  case gone =>
    intro d
    rw [or_iff_left List.not_mem_nil, Gone, Gone, hnone, ha]
  case law =>
    intro j d _
    rw [queue, queue, hm]
    by_cases hjd : j = k ∧ d = c
    · rw [if_pos hjd, if_pos hjd, if_pos hjd, hjd.1, hjd.2, hq]
      exact hlaw
    · rw [if_neg hjd, if_neg hjd, if_neg hjd, List.append_nil, List.nil_append]

end

/-! ## The functions -/

section
variable {s t : Ipc} {k : Poll} {c : Nat} {cl : Client} {f : Frame}

/-- While a poll waits there is nothing to send. -/
theorem MailInv.idle (h : MailInv s) (hc : s.clients c = some cl) (hp : (cl.box k).ping = true) :
    (cl.box k).q = [] :=
  h.waiting k c _ ((mail_eq hc k).trans (by rw [hp]))

/-- **`client_push_rx` and `client_push_note`**: the poll that waits gets
the frame, or it goes behind the others. -/
theorem clientPush_live (h : MailInv s) (hc : s.clients c = some cl) (k : Poll) (f : Frame) :
    s.clientPush k c f = .ok (if (cl.box k).ping then
      ({ s with loop := s.loop.remove (cl.box k).timer }.setClient c (cl.setBox k ⟨[], 0, false⟩),
        [.reply c (.frame f)])
      else (s.setClient c (cl.setBox k ⟨(cl.box k).q ++ [f], (cl.box k).timer, (cl.box k).ping⟩), [])) := by
  rw [clientPush, client_eq hc, ok_bind]
  dsimp only
  by_cases hp : (cl.box k).ping = true
  · have hnil := h.idle hc hp
    have hclient : (s.setClient c (cl.push k f)).client c = .ok (cl.push k f) :=
      client_eq (Function.update_self ..)
    have hloop : (if (cl.box k).timer ≠ 0 then s.loop.remove (cl.box k).timer else s.loop)
        = s.loop.remove (cl.box k).timer := by
      split
      · rfl
      · rename_i h0
        rw [not_not.mp h0, MainLoop.remove_zero]
    rw [if_pos hp, if_pos hp, ping, hclient, ok_bind]
    simp [Client.push, Client.pop, Client.setBox, hnil, Queue.pushHead, Queue.popTail, hloop,
      setClient]
  · rw [if_neg hp, if_neg hp]
    rfl

/-- A frame that is sent reaches the one client, from the one queue. -/
theorem sent_reply (k j : Poll) (c d : Nat) (f : Frame) :
    (if j = k then [IpcOut.reply c (.frame f)].filterMap (IpcOut.frameTo d) else [])
      = if j = k ∧ d = c then [f] else [] := by
  by_cases hj : j = k
  · by_cases hd : d = c
    · simp [IpcOut.frameTo, hj, hd]
    · simp [IpcOut.frameTo, hj, hd, Ne.symm hd]
  · simp [hj]

/-- A frame is pushed. -/
theorem clientPush_carries (h : MailInv s) {out : List IpcOut}
    (hr : s.clientPush k c f = .ok (t, out)) :
    Carries s t [] (fun j d => if j = k then out.filterMap (IpcOut.frameTo d) else [])
      (fun j d => if j = k ∧ d = c then [f] else []) := by
  obtain ⟨cl, hcl, -⟩ := bind_ok.mp hr
  have hc := Session.client_ok hcl
  have hq := mail_eq hc k
  rw [clientPush_live h hc] at hr
  by_cases hp : (cl.box k).ping = true
  · rw [if_pos hp] at hr
    cases hr
    have hnil := h.idle hc hp
    have hlaw : [f] ++ [] = (cl.box k).q ++ [f] := by rw [hnil, List.append_nil, List.nil_append]
    apply (carries_box h [f] [f] hq (mail_setBox hc _ k _) rfl (fun _ => rfl) hlaw).congr
      _ fun _ _ => rfl
    exact fun j d => sent_reply k j c d f
  · rw [if_neg hp] at hr
    cases hr
    have hmail := mail_setBox hc s.loop k ⟨(cl.box k).q ++ [f], (cl.box k).timer, (cl.box k).ping⟩
    apply (carries_box h [] [f] hq hmail rfl (fun hp' => absurd hp' hp) rfl).congr _ fun _ _ => rfl
    intro j d
    rw [List.filterMap_nil, ite_self, ite_self]

theorem pushNotes_carries (h : MailInv s) {note : Frame} {cs : List Nat} {out : List IpcOut}
    (hr : s.pushNotes note cs = .ok (t, out)) :
    Carries s t [] (fun j d => if j = .note then out.filterMap (IpcOut.frameTo d) else [])
      (fun j d => if j = .note then (cs.filter (· = d)).map fun _ => note else []) := by
  induction cs generalizing s out with
  | nil =>
      cases hr
      apply (Carries.refl h).congr <;> intro j d <;> exact ite_self []
  | cons c cs ih =>
      obtain ⟨⟨u, o⟩, hu, hr⟩ := bind_ok.mp hr
      obtain ⟨⟨v, os⟩, hv, hr⟩ := bind_ok.mp hr
      cases hr
      have hpush := clientPush_carries h hu
      apply (hpush.trans (ih hpush.inv hv)).congr
      · intro j d
        by_cases hj : j = .note
        · rw [if_pos hj, if_pos hj, if_pos hj, List.filterMap_append]
        · rw [if_neg hj, if_neg hj, if_neg hj, List.append_nil]
      · intro j d
        by_cases hj : j = .note
        · by_cases hd : c = d
          · simp [hj, hd]
          · simp [hj, hd, Ne.symm hd]
        · simp [hj]

/-- **`handle_poll_rx` and `handle_poll_note`**: the oldest frame, or an
empty queue behind which the poll may wait. -/
theorem poll_cases {timeout : BitVec 32} {out : List IpcOut}
    (hr : s.poll k c timeout = .ok (t, out)) :
    ∃ cl, s.clients c = some cl
      ∧ ((∃ f q, (cl.box k).q = f :: q ∧ out = [.reply c (.frame f)]
          ∧ t = s.setClient c (cl.setBox k ⟨q, (cl.box k).timer, (cl.box k).ping⟩))
        ∨ ((cl.box k).q = [] ∧ out = [.reply c (.status eTimeout)] ∧ t = s)
        ∨ ((cl.box k).q = [] ∧ out = [] ∧ ∃ l timer,
          t = { s with loop := l }.setClient c (cl.setBox k ⟨[], timer, true⟩))) := by
  obtain ⟨cl, hcl, hr⟩ := bind_ok.mp hr
  refine ⟨cl, Session.client_ok hcl, ?_⟩
  split at hr
  · rename_i f cl' hpop
    cases hr
    obtain ⟨⟨g, q⟩, hq, heq⟩ := Option.map_eq_some_iff.mp hpop
    cases heq
    exact .inl ⟨f, q, Queue.popTail_some.mp hq, rfl, rfl⟩
  · rename_i hpop
    have hnil : (cl.box k).q = [] := Queue.popTail_none.mp (Option.map_eq_none_iff.mp hpop)
    rw [await] at hr
    split at hr
    · cases hr
      exact .inr (.inl ⟨hnil, rfl, rfl⟩)
    · split at hr
      · cases hr
        exact .inr (.inr ⟨hnil, rfl, s.loop, (cl.box k).timer, by rw [← hnil]⟩)
      · cases hr
        exact .inr (.inr ⟨hnil, rfl, s.loop.add (.timeout k c), s.loop.nextId, by rw [← hnil]⟩)

theorem poll_carries (h : MailInv s) {timeout : BitVec 32} {out : List IpcOut}
    (hr : s.poll k c timeout = .ok (t, out)) :
    Carries s t [] (fun j d => if j = k then out.filterMap (IpcOut.frameTo d) else [])
      (fun _ _ => []) := by
  obtain ⟨cl, hc, ⟨f, q, hq, rfl, rfl⟩ | ⟨-, rfl, rfl⟩ | ⟨hq, rfl, l, timer, rfl⟩⟩ := poll_cases hr
  · have hmail := mail_eq hc k
    have hnot : (cl.box k).ping = true → q = [] := by
      intro hp
      have := h.idle hc hp
      rw [hq] at this
      cases this
    have hlaw : [f] ++ q = (cl.box k).q ++ [] := by rw [hq, List.append_nil]; rfl
    apply (carries_box h [f] [] hmail (mail_setBox hc s.loop k ⟨_, _, _⟩) rfl hnot hlaw).congr
    · exact fun j d => sent_reply k j c d f
    · intro j d
      rw [ite_self]
  · apply (Carries.refl h).congr _ fun _ _ => rfl
    intro j d
    exact ite_self []
  · have hlaw : [] ++ [] = (cl.box k).q ++ ([] : List Frame) := by rw [hq]
    apply (carries_box h [] [] (mail_eq hc k) (mail_setBox hc l k ⟨[], timer, true⟩) rfl
      (fun _ => rfl) hlaw).congr <;> intro j d <;> simp

/-- A client is written back with the mail it had. -/
theorem mail_keep {v : Ipc} {cl' : Client} (hc : s.clients c = some cl) (hv : v.clients = s.clients)
    (hb : ∀ k, (cl'.box k).q = (cl.box k).q ∧ (cl'.box k).ping = (cl.box k).ping) (k : Poll)
    (d : Nat) : (v.setClient c cl').mail k d = s.mail k d := by
  rw [mail_setClient, (hb k).1, (hb k).2]
  by_cases hd : d = c
  · rw [if_pos hd, hd, mail_eq hc]
  · rw [if_neg hd, mail, mail, hv]

theorem setClientNotes_carries {P : Platform} {a : Nat} {notes : BitVec 64} (h : MailInv s)
    (hr : s.setClientNotes P a c notes = .ok t) :
    Carries s t [] (fun _ _ => []) (fun _ _ => []) := by
  rw [setClientNotes] at hr
  split at hr
  · obtain ⟨cl, hcl, hr⟩ := bind_ok.mp hr
    cases hr
    refine carries_same h (mail_keep (Session.client_ok hcl) rfl ?_) rfl
    intro k
    rw [Client.setNoteData_box]
    exact ⟨rfl, rfl⟩
  · cases hr

theorem clearClientNotes_carries {P : Platform} (h : MailInv s)
    (hr : s.clearClientNotes P c = .ok t) : Carries s t [] (fun _ _ => []) (fun _ _ => []) := by
  obtain ⟨cl, hcl, hr⟩ := bind_ok.mp hr
  cases hr
  refine carries_same h (mail_keep (Session.client_ok hcl) rfl ?_) rfl
  intro k
  rw [Client.clearNoteData_box]
  exact ⟨rfl, rfl⟩

theorem timedOut_carries {id : Nat} {out : List IpcOut} (h : MailInv s)
    (hr : s.timedOut k id c = .ok (t, out)) : Carries s t [] (fun _ _ => []) (fun _ _ => []) := by
  obtain ⟨cl, hcl, hr⟩ := bind_ok.mp hr
  cases hr
  have hc := Session.client_ok hcl
  have hbox : ∀ j, ((cl.setBox k { cl.box k with timer := 0 }).box j).q = (cl.box j).q
      ∧ ((cl.setBox k { cl.box k with timer := 0 }).box j).ping = (cl.box j).ping := by
    intro j
    rw [Client.setBox_box]
    by_cases hj : j = k
    · rw [if_pos hj, hj]
      exact ⟨rfl, rfl⟩
    · rw [if_neg hj]
      exact ⟨rfl, rfl⟩
  exact carries_same h (mail_keep hc rfl hbox) rfl

theorem clientDestroy_ok {P : Platform} {out : List IpcOut}
    (hr : s.clientDestroy P c = .ok (t, out)) :
    (∃ cl, s.clients c = some cl) ∧ t.clients = Function.update s.clients c none
      ∧ t.accepted = s.accepted ∧ t.devices = s.devices.clearClientNotes c := by
  obtain ⟨u, hu, hr⟩ := bind_ok.mp hr
  cases hr
  obtain ⟨cl, hcl, hu⟩ := bind_ok.mp hu
  cases hu
  exact ⟨⟨cl, Session.client_ok hcl⟩, Function.update_idem .., rfl, rfl⟩

/-- A new client has no mail. -/
theorem new_carries (h : MailInv s) : Carries s s.new [] (fun _ _ => []) (fun _ _ => []) := by
  have hclients : ∀ c, c ≠ s.accepted → s.new.clients c = s.clients c :=
    fun c hc => Function.update_of_ne hc _ _
  have hself : s.new.clients s.accepted = some .create := Function.update_self ..
  constructor
  case inv =>
    constructor
    · intro k c q hq
      by_cases hc : c = s.accepted
      · rw [hc, mail_eq hself] at hq
        cases hq
      · rw [mail, hclients c hc] at hq
        exact h.waiting k c q hq
    · intro c hc
      rw [hclients c (Nat.ne_of_gt hc)]
      exact h.unborn c (Nat.le_of_succ_le hc)
  case gone =>
    intro c
    rw [or_iff_left List.not_mem_nil]
    by_cases hc : c = s.accepted
    · apply iff_of_false
      · intro hx
        obtain ⟨-, hnone⟩ := hx
        cases hself.symm.trans (hc ▸ hnone)
      · exact fun hg => absurd hc (Nat.ne_of_lt hg.1)
    · rw [Gone, Gone, hclients c hc]
      refine and_congr_left' ?_
      show c < s.accepted + 1 ↔ _
      omega
  case law =>
    intro k c _
    rw [List.append_nil, List.nil_append]
    by_cases hc : c = s.accepted
    · rw [hc, queue_eq hself, queue, mail_none.mpr (h.unborn _ (Nat.le_refl _))]
      rfl
    · rw [queue, queue, mail, mail, hclients c hc]

/-- **`client_destroy`** frees the mail of one client. -/
theorem clientDestroy_carries {P : Platform} {out : List IpcOut} (h : MailInv s)
    (hr : s.clientDestroy P c = .ok (t, out)) :
    Carries s t [c] (fun _ _ => []) (fun _ _ => []) := by
  obtain ⟨⟨cl, hc⟩, hclients, haccepted, -⟩ := clientDestroy_ok hr
  have hlt : c < s.accepted := by
    by_contra hle
    rw [h.unborn c (Nat.not_lt.mp hle)] at hc
    cases hc
  have hother : ∀ d, d ≠ c → t.clients d = s.clients d := by
    intro d hd
    rw [hclients, Function.update_of_ne hd]
  have hself : t.clients c = none := by
    rw [hclients, Function.update_self]
  have hgone : t.Gone c := ⟨haccepted ▸ hlt, hself⟩
  constructor
  case inv =>
    constructor
    · intro k d q hq
      by_cases hd : d = c
      · rw [hd, mail_none.mpr hself] at hq
        cases hq
      · rw [mail, hother d hd] at hq
        exact h.waiting k d q hq
    · intro d hd
      by_cases hdc : d = c
      · rw [hdc, hself]
      · rw [hother d hdc]
        exact h.unborn d (haccepted ▸ hd)
  case gone =>
    intro d
    rw [List.mem_singleton]
    by_cases hdc : d = c
    · exact iff_of_true (hdc ▸ hgone) (.inr hdc)
    · rw [or_iff_left hdc, Gone, Gone, hother d hdc, haccepted]
  case law =>
    intro k d hd
    have hdc : d ≠ c := by
      intro hx
      obtain rfl := hx
      exact hd hgone
    rw [queue, queue, mail, mail, hother d hdc, List.append_nil, List.nil_append]

end

/-! ## Calls and runs -/

section
variable {P : Platform} {s t : Ipc} {call : ClientCall}

/-- Neither kind of frame is sent or pushed in a call that is about neither. -/
theorem Carries.neither {ended : List Nat} (h : Carries s t ended (fun _ _ => []) (fun _ _ => []))
    (hk : call.kind = none) (hp : ∀ k c, pushed P k c s call = []) :
    Carries s t ended (fun k c => delivered P k c s call) (fun k c => pushed P k c s call) := by
  apply h.congr _ hp
  intro k c
  rw [delivered, hk, if_neg (Option.some_ne_none k).symm]

/-- **What a call does to the mail.** -/
theorem perform_carries (h : MailInv s) {out : List IpcOut} (hs : s.perform P call = .ok (t, out)) :
    Carries s t call.ended (fun k c => delivered P k c s call)
      (fun k c => pushed P k c s call) := by
  have hdelivered : ∀ j k c, call.kind = some j →
      delivered P k c s call = if k = j then out.filterMap (IpcOut.frameTo c) else [] := by
    intro j k c hj
    rw [delivered, hs, hj]
    exact if_congr (by rw [Option.some.injEq, eq_comm]) rfl rfl
  cases call with
  | connect =>
      cases hs
      exact (new_carries h).neither rfl fun _ _ => rfl
  | request c q =>
      cases q with
      | tx address payload hlt =>
          rw [perform, Request.serve] at hs
          split at hs
          · obtain ⟨rfl, -⟩ := Session.transmit_outcome hs
            exact (Carries.refl h).neither rfl fun _ _ => rfl
          · cases hs
      | poll k timeout =>
          exact (poll_carries h hs).congr (fun j d => hdelivered k j d rfl) fun _ _ => rfl
      | noteFlags device flags =>
          rcases setFlags_ok hs with ⟨-, hset, -⟩ | ⟨-, rfl, -⟩
          · exact (setClientNotes_carries h hset).neither rfl fun _ _ => rfl
          · exact (Carries.refl h).neither rfl fun _ _ => rfl
      | noteClear =>
          obtain ⟨u, hu, hs⟩ := bind_ok.mp hs
          cases hs
          exact (clearClientNotes_carries h hu).neither rfl fun _ _ => rfl
      | listDevices =>
          cases hs
          exact (Carries.refl h).neither rfl fun _ _ => rfl
  | timeout k id c =>
      have hstep : s.step P (.timeout k id c) = .ok (t, out) := hs
      have hh := (step_handle hstep).2
      cases k with
      | rx =>
          obtain ⟨⟨u, o⟩, hu, hh⟩ := bind_ok.mp hh
          cases hh
          exact (timedOut_carries h hu).neither rfl fun _ _ => rfl
      | note => exact (timedOut_carries h hh).neither rfl fun _ _ => rfl
  | push k c f =>
      exact (clientPush_carries h hs).congr (fun j d => hdelivered k j d rfl) fun j d => by
        rw [pushed]
        exact if_congr (by rw [eq_comm, @eq_comm _ d]) rfl rfl
  | dispatchNote note =>
      rw [perform, dispatchNote] at hs
      split at hs
      · exact (pushNotes_carries h hs).congr (fun j d => hdelivered .note j d rfl) fun _ _ => rfl
      · cases hs
  | setClientNotes address c notes =>
      obtain ⟨u, hu, hs⟩ := bind_ok.mp hs
      cases hs
      exact (setClientNotes_carries h hu).neither rfl fun _ _ => rfl
  | destroy c => exact (clientDestroy_carries h hs).neither rfl fun _ _ => rfl
  | deviceAdd _ _ | listen | socket _ _ | drop _ =>
      cases hs
      exact Carries.neither (carries_same h (fun _ _ => rfl) rfl) rfl fun _ _ => rfl

/-- **What a run does to the mail.** -/
theorem run_carries (h : MailInv s) {calls : List ClientCall} {out : List IpcOut}
    (hr : run (perform P) s calls = .ok (t, out)) :
    Carries s t (history (perform P) (fun _ call => call.ended) s calls)
      (fun k c => history (perform P) (delivered P k c) s calls)
      (fun k c => history (perform P) (pushed P k c) s calls) := by
  induction calls generalizing s out with
  | nil =>
      cases hr
      exact Carries.refl h
  | cons call calls ih =>
      obtain ⟨u, o, os, hs, hr, -⟩ := run_cons_ok.mp hr
      have hcall := perform_carries h hs
      rw [history, hs]
      apply (hcall.trans (ih hcall.inv hr)).congr <;> intro k c <;> rw [history, hs]

end

/-! ## The assertion -/

section
variable {P : Platform} {s : Ipc}

theorem serve_asserts (c : Nat) (q : Request) : q.serve P s c ≠ .error .assertion := by
  intro h
  cases q with
  | tx address payload hlt =>
      rw [Request.serve] at h
      split at h
      · cases (transmit_error h).1
      · cases h
  | poll k timeout => cases poll_error h
  | noteFlags device flags =>
      obtain hx | ⟨hx, -⟩ := setFlags_error h
      · cases hx
      · cases hx
  | noteClear => cases handleNoteClear_error h
  | listDevices => cases h

/-- **`rx_ping` and `note_ping` find a frame.** -/
theorem clientPush_asserts (h : MailInv s) (k : Poll) (c : Nat) (f : Frame) :
    s.clientPush k c f ≠ .error .assertion := by
  cases hc : s.clients c with
  | none =>
      rw [clientPush, client, hc]
      intro hr
      cases hr
  | some cl =>
      rw [clientPush_live h hc]
      intro hr
      cases hr

theorem pushNotes_asserts (h : MailInv s) (note : Frame) (cs : List Nat) :
    s.pushNotes note cs ≠ .error .assertion := by
  induction cs generalizing s with
  | nil =>
      intro hr
      cases hr
  | cons c cs ih =>
      intro hr
      obtain hr | ⟨⟨t, out⟩, ht, hr⟩ := bind_error.mp hr
      · exact clientPush_asserts h _ _ _ hr
      · obtain hr | ⟨_, -, hr⟩ := bind_error.mp hr
        · exact ih (clientPush_carries h ht).inv hr
        · cases hr

theorem perform_asserts (h : MailInv s) (call : ClientCall) :
    s.perform P call ≠ .error .assertion := by
  intro hr
  cases call with
  | connect | deviceAdd _ _ | listen | socket _ _ | drop _ => cases hr
  | request c q => exact serve_asserts c q hr
  | timeout k id c =>
      rw [perform, step.eq_def] at hr
      dsimp only [IpcEvent.source] at hr
      split at hr
      · cases k with
        | rx =>
            obtain hr | ⟨_, -, hr⟩ := bind_error.mp hr
            · cases timedOut_error hr
            · cases hr
        | note => cases timedOut_error hr
      · cases hr
  | push k c f => exact clientPush_asserts h k c f hr
  | dispatchNote note =>
      rw [perform, dispatchNote] at hr
      split at hr
      · exact pushNotes_asserts h _ _ hr
      · cases hr
  | setClientNotes address c notes =>
      obtain hr | ⟨_, -, hr⟩ := bind_error.mp hr
      · rw [setClientNotes] at hr
        split at hr
        · obtain hr | ⟨_, -, hr⟩ := bind_error.mp hr
          · cases client_error hr
          · cases hr
        · cases hr
      · cases hr
  | destroy c =>
      obtain hr | ⟨_, -, hr⟩ := bind_error.mp hr
      · cases clearClientNotes_error hr
      · cases hr

end

/-- **Frames reach a client in order, each of them once**: what was sent to
it and what is still kept for it is what was pushed for it. No poll waits
while there is something to send, so that the callback of one finds its
frame. -/
theorem frames_in_order {P : Platform} {calls : List ClientCall} {s : Ipc} {os : List IpcOut}
    (hr : run (perform P) init calls = .ok (s, os)) (k : Poll) :
    (∀ c cl, s.clients c = some cl →
        history (perform P) (delivered P k c) init calls ++ (cl.box k).q
            = history (perform P) (pushed P k c) init calls
          ∧ ((cl.box k).ping = true → (cl.box k).q = []))
      ∧ ∀ call, s.perform P call ≠ .error .assertion := by
  have h := run_carries mailInv_init hr
  refine ⟨?_, perform_asserts h.inv⟩
  intro c cl hc
  constructor
  · have hlaw := h.law k c fun hg => by cases hc.symm.trans hg.2
    rwa [queue_eq hc] at hlaw
  · intro hp
    exact h.inv.idle hc hp

/-- A poll without a limit, one with a limit that is overwritten by a
second, and frames around them. -/
def mailing : List ClientCall :=
  [.connect, .request 0 (.poll .rx (-1)), .push .rx 0 ⟨2, 1, 0xFF, [1]⟩,
    .push .rx 0 ⟨2, 1, 0xFF, [2]⟩, .request 0 (.poll .rx 5), .request 0 (.poll .rx 5),
    .request 0 (.poll .rx 5), .timeout .rx 3 0, .push .rx 0 ⟨2, 1, 0xFF, [3]⟩,
    .push .rx 0 ⟨2, 1, 0xFF, [4]⟩]

theorem frames_in_order_two_polls : ∃ s os cl, run (perform .x86) init mailing = .ok (s, os)
    ∧ s.clients 0 = some cl
    ∧ history (perform .x86) (delivered .x86 .rx 0) init mailing ++ (cl.box .rx).q
      = history (perform .x86) (pushed .x86 .rx 0) init mailing := by
  have hrun : (run (perform .x86) init mailing).toOption.any (fun p => (p.1.clients 0).isSome)
      = true := by decide
  obtain ⟨⟨s, os⟩, hr, hsome⟩ := ok_of_any hrun
  obtain ⟨cl, hc⟩ := Option.isSome_iff_exists.mp hsome
  exact ⟨s, os, cl, hr, hc, ((frames_in_order hr .rx).1 0 cl hc).1⟩

end Ipc

end Sricd
