import Sricd.Daemon
import Sricd.Request

/-!
# Sessions

The daemon with clients that wait for the reply to a request before they
make the next one. The replies stay in step with the requests in exactly
the runs in which no poll times out (`replies_in_step`): the timeouts leave
the client waiting.
-/

namespace Sricd

open Sricd.Lib

/-- The daemon, and the request of each client that has no reply yet. -/
structure Session where
  daemon : Daemon
  asked : Nat → Option Request

inductive SessionEvent where
  /-- a client makes a request -/
  | ask (c : Nat) (q : Request)
  | daemon (ev : DaemonEvent)
deriving DecidableEq

/-- A poll times out. -/
def SessionEvent.isTimeout : SessionEvent → Bool
  | .daemon (.ipc (.timeout _ _ _)) => true
  | _ => false

/-- A reply, and the client that gets it. -/
def IpcOut.asReply : IpcOut → Option (Nat × Reply)
  | .reply c r => some (c, r)
  | _ => none

def DaemonOut.asReply : DaemonOut → Option (Nat × Reply)
  | .ipc o => o.asReply
  | .sricIf _ => none

/-- The replies among the outputs of the module. -/
def Ipc.replies (os : List IpcOut) : List (Nat × Reply) := os.filterMap IpcOut.asReply

/-- The replies among the outputs of the daemon. -/
def Daemon.replies (os : List DaemonOut) : List (Nat × Reply) := os.filterMap DaemonOut.asReply

namespace Session

def init : Session where
  daemon := .init
  asked _ := none

/-- What is asked behind these replies. -/
def answered (asked : Nat → Option Request) : List (Nat × Reply) → Nat → Option Request
  | [] => asked
  | (c, _) :: rs => answered (Function.update asked c none) rs

/-- One event. A client with a request writes nothing more. -/
def step (P : Platform) (s : Session) : SessionEvent → Except Halt (Session × List DaemonOut)
  | .ask c q =>
      if s.asked c = none then do
        let (d, out) ← s.daemon.step P (.ipc (.sent c q.bytes))
        .ok (⟨d, Function.update s.asked c (some q)⟩, out)
      else .error .disabled
  | .daemon (.ipc (.sent _ _)) => .error .disabled
  | .daemon ev => do
      let (d, out) ← s.daemon.step P ev
      .ok (⟨d, answered s.asked (Daemon.replies out)⟩, out)

/-- Every reply is one to a request that has none yet. -/
def Solicited (asked : Nat → Option Request) : List (Nat × Reply) → Prop
  | [] => True
  | (c, r) :: rs => (∃ q, asked c = some q ∧ q.Accepts r) ∧ Solicited (Function.update asked c none) rs

/-- The daemon has read a poll of the client, and not replied. -/
def Waits (asked : Nat → Option Request) (s : Ipc) (c : Nat) (k : Poll) : Prop :=
  (∃ t, asked c = some (.poll k t)) ∧ (s.sockets c).inbox = []

/-- **Requests and replies are in step**: a request without a reply is not
read yet, or it is a poll, and the callback of a poll is there exactly
while that is waiting. -/
structure Synced (asked : Nat → Option Request) (s : Ipc) : Prop where
  silent : ∀ c, asked c = none → (s.sockets c).inbox = []
  unread : ∀ c q, asked c = some q →
    (s.sockets c).inbox = q.bytes ∨ ((s.sockets c).inbox = [] ∧ ∃ k t, q = .poll k t)
  ping : ∀ c cl, s.clients c = some cl → ∀ k, (cl.box k).ping = true ↔ Waits asked s c k

/-- In every step of the run the replies are to requests without one, and
behind it they are in step. -/
def InStep (P : Platform) (evs : List SessionEvent) : Prop :=
  ∀ pre ev post s os s' out, evs = pre ++ ev :: post → run (step P) init pre = .ok (s, os) →
    step P s ev = .ok (s', out) →
    Solicited s.asked (Daemon.replies out) ∧ Synced s'.asked s'.daemon.ipc

theorem answered_append (asked : Nat → Option Request) (rs rs' : List (Nat × Reply)) :
    answered asked (rs ++ rs') = answered (answered asked rs) rs' := by
  induction rs generalizing asked with
  | nil => rfl
  | cons p rs ih => exact ih _

theorem solicited_append {asked : Nat → Option Request} {rs rs' : List (Nat × Reply)} :
    Solicited asked (rs ++ rs') ↔ Solicited asked rs ∧ Solicited (answered asked rs) rs' := by
  induction rs generalizing asked with
  | nil => exact ⟨fun h => ⟨trivial, h⟩, fun h => h.2⟩
  | cons p rs ih => exact (and_congr_right fun _ => ih).trans and_assoc.symm

theorem replies_append (os os' : List IpcOut) :
    Ipc.replies (os ++ os') = Ipc.replies os ++ Ipc.replies os' :=
  List.filterMap_append

/-! ## The invariant -/

/-- The requests are in step, and a timeout is registered only while its
poll waits. -/
structure Inv (asked : Nat → Option Request) (s : Ipc) : Prop extends Synced asked s where
  timers : ∀ id k c cl, (id, IpcSource.timeout k c) ∈ s.loop.live → s.clients c = some cl →
    (cl.box k).timer = id ∧ (cl.box k).ping = true
  timer_lt : ∀ id k c, (id, IpcSource.timeout k c) ∈ s.loop.live → c < s.accepted
  asked_lt : ∀ c, s.accepted ≤ c → asked c = none

theorem inv_init : Inv (fun _ => none) .init where
  silent _ _ := rfl
  unread _ _ h := by cases h
  ping _ _ h := by cases h
  timers _ _ _ _ _ h := by cases h
  timer_lt _ _ _ h := by cases h
  asked_lt _ _ := rfl

/-- No timeout and no callback of a client is new in `s'`. -/
structure Like (s s' : Ipc) : Prop where
  timeouts : ∀ id k c, (id, IpcSource.timeout k c) ∈ s'.loop.live →
    (id, IpcSource.timeout k c) ∈ s.loop.live
  accepted : s.accepted ≤ s'.accepted
  clients : ∀ c cl', s'.clients c = some cl' → ∃ cl, s.clients c = some cl ∧
    ∀ k, (cl'.box k).timer = (cl.box k).timer ∧ (cl'.box k).ping = (cl.box k).ping

theorem Like.refl (s : Ipc) : Like s s :=
  ⟨fun _ _ _ h => h, Nat.le_refl _, fun _ cl h => ⟨cl, h, fun _ => ⟨rfl, rfl⟩⟩⟩

theorem Like.devices (s : Ipc) (d : Devices) : Like s { s with devices := d } :=
  ⟨fun _ _ _ h => h, Nat.le_refl _, fun _ cl h => ⟨cl, h, fun _ => ⟨rfl, rfl⟩⟩⟩

/-- A client is written back with the callbacks it had. -/
theorem Like.setClient {s t : Ipc} {c : Nat} {cl cl' : Client} (h : Like s t)
    (hc : s.clients c = some cl) (hk : ∀ k, (cl'.box k).timer = (cl.box k).timer
      ∧ (cl'.box k).ping = (cl.box k).ping) : Like s (t.setClient c cl') where
  timeouts := h.timeouts
  accepted := h.accepted
  clients d cl'' hd := by
    rcases Ipc.update_clients hd with ⟨rfl, rfl⟩ | ⟨-, hd⟩
    · exact ⟨cl, hc, hk⟩
    · exact h.clients d cl'' hd

theorem Inv.like {asked : Nat → Option Request} {s s' : Ipc} (h : Inv asked s) (hl : Like s s')
    (hin : ∀ c, (s'.sockets c).inbox = (s.sockets c).inbox) : Inv asked s' where
  silent c hc := (hin c).trans (h.silent c hc)
  unread c q hq := by
    rw [hin c]
    exact h.unread c q hq
  ping c cl' hc k := by
    obtain ⟨cl, hcl, hbox⟩ := hl.clients c cl' hc
    rw [(hbox k).2, h.ping c cl hcl k, Waits, Waits, hin c]
  timers id k c cl' hl' hc := by
    obtain ⟨cl, hcl, hbox⟩ := hl.clients c cl' hc
    rw [(hbox k).1, (hbox k).2]
    exact h.timers id k c cl (hl.timeouts id k c hl') hcl
  timer_lt id k c hl' := Nat.lt_of_lt_of_le (h.timer_lt id k c (hl.timeouts id k c hl')) hl.accepted
  asked_lt c hc := h.asked_lt c (Nat.le_trans hl.accepted hc)

/-- While a request is not read, no poll waits. -/
theorem Inv.no_ping {asked : Nat → Option Request} {s : Ipc} (h : Inv asked s) {c : Nat}
    {cl : Client} (hin : (s.sockets c).inbox ≠ []) (hc : s.clients c = some cl) (k : Poll) :
    (cl.box k).ping = false := by
  rw [Bool.eq_false_iff]
  intro hp
  exact hin ((h.ping c cl hc k).mp hp).2

/-- A request that is read and has its reply. -/
theorem Inv.answer {asked : Nat → Option Request} {s s' : Ipc} {c : Nat} (h : Inv asked s)
    (hin : (s.sockets c).inbox ≠ []) (hl : Like s s')
    (hs : ∀ d, (s'.sockets d).inbox = if d = c then [] else (s.sockets d).inbox) :
    Inv (Function.update asked c none) s' where
  silent d hd := by
    rw [hs d]
    by_cases hdc : d = c
    · rw [if_pos hdc]
    · rw [if_neg hdc]
      exact h.silent d (by rwa [Function.update_of_ne hdc] at hd)
  unread d q hd := by
    by_cases hdc : d = c
    · rw [hdc, Function.update_self] at hd
      cases hd
    · rw [hs d, if_neg hdc]
      rw [Function.update_of_ne hdc] at hd
      exact h.unread d q hd
  ping d cl' hd k := by
    obtain ⟨cl, hcl, hbox⟩ := hl.clients d cl' hd
    rw [(hbox k).2, Waits, hs d]
    by_cases hdc : d = c
    · subst hdc
      rw [h.no_ping hin hcl k]
      simp
    · rw [if_neg hdc, Function.update_of_ne hdc]
      exact h.ping d cl hcl k
  timers id k d cl' hl' hd := by
    obtain ⟨cl, hcl, hbox⟩ := hl.clients d cl' hd
    rw [(hbox k).1, (hbox k).2]
    exact h.timers id k d cl (hl.timeouts id k d hl') hcl
  timer_lt id k d hl' := Nat.lt_of_lt_of_le (h.timer_lt id k d (hl.timeouts id k d hl')) hl.accepted
  asked_lt d hd := by
    by_cases hdc : d = c
    · rw [hdc, Function.update_self]
    · rw [Function.update_of_ne hdc]
      exact h.asked_lt d (Nat.le_trans hl.accepted hd)

/-! ## A request is served -/

/-- A poll has begun to wait. -/
structure Begun (s s' : Ipc) (c : Nat) (k : Poll) : Prop where
  client : ∃ cl m, s.clients c = some cl ∧ m.ping = true
    ∧ s'.clients = Function.update s.clients c (some (cl.setBox k m))
    ∧ ∀ id j d, (id, IpcSource.timeout j d) ∈ s'.loop.live →
      (id, IpcSource.timeout j d) ∈ s.loop.live ∨ (j = k ∧ d = c ∧ id = m.timer)
  sockets : s'.sockets = s.sockets
  accepted : s'.accepted = s.accepted

/-- What becomes of a request: it has its reply, or it is a poll and waits. -/
def Outcome (q : Request) (s : Ipc) (c : Nat) (s' : Ipc) (out : List IpcOut) : Prop :=
  (∃ r, Ipc.replies out = [(c, r)] ∧ q.Accepts r ∧ Like s s' ∧ s'.sockets = s.sockets)
    ∨ (∃ k t, q = .poll k t ∧ Ipc.replies out = [] ∧ Begun s s' c k)

theorem client_ok {s : Ipc} {c : Nat} {cl : Client} (h : s.client c = .ok cl) :
    s.clients c = some cl := by
  rw [Ipc.client] at h
  split at h
  · cases h
  · rename_i hc
    cases h
    exact hc

theorem pop_like {cl cl' : Client} {k : Poll} {f : Frame} (h : cl.pop k = some (f, cl')) (j : Poll) :
    (cl'.box j).timer = (cl.box j).timer ∧ (cl'.box j).ping = (cl.box j).ping := by
  obtain ⟨⟨f', q⟩, -, heq⟩ := Option.map_eq_some_iff.mp h
  cases heq
  rw [Client.setBox_box]
  by_cases hj : j = k
  · rw [if_pos hj, hj]
    exact ⟨rfl, rfl⟩
  · rw [if_neg hj]
    exact ⟨rfl, rfl⟩

theorem transmit_outcome {P : Platform} {s s' : Ipc} {c : Nat} {frame : FrameT} {out : List IpcOut}
    (h : s.transmit P c frame = .ok (s', out)) :
    s' = s ∧ ∃ b, Ipc.replies out = [(c, .status b)] := by
  obtain ⟨b, -, h⟩ := bind_ok.mp h
  split at h
  · cases h
    exact ⟨rfl, _, rfl⟩
  · cases h
    exact ⟨rfl, _, rfl⟩

theorem poll_outcome {k : Poll} {t : BitVec 32} {s s' : Ipc} {c : Nat} {out : List IpcOut}
    (h : s.poll k c t = .ok (s', out)) : Outcome (.poll k t) s c s' out := by
  obtain ⟨cl, hcl, h⟩ := bind_ok.mp h
  have hc := client_ok hcl
  split at h
  · rename_i f cl' hpop
    cases h
    exact .inl ⟨_, rfl, trivial, (Like.refl s).setClient hc (pop_like hpop), rfl⟩
  · rw [Ipc.await] at h
    split at h
    · cases h
      exact .inl ⟨_, rfl, rfl, Like.refl s, rfl⟩
    · split at h
      · cases h
        exact .inr ⟨k, t, rfl, rfl, ⟨cl, _, hc, rfl, rfl, fun _ _ _ hl => .inl hl⟩, rfl, rfl⟩
      · cases h
        refine .inr ⟨k, t, rfl, rfl, ⟨cl, _, hc, rfl, rfl, ?_⟩, rfl, rfl⟩
        intro id j d hl
        apply ((MainLoop.mem_add ..).mp hl).imp_right
        intro heq
        cases heq
        exact ⟨rfl, rfl, rfl⟩

theorem setFlags_outcome {P : Platform} {s s' : Ipc} {c d : Nat} {f : BitVec 64}
    {out : List IpcOut} (h : s.setFlags P c d f = .ok (s', out)) :
    (∃ b, Ipc.replies out = [(c, .status b)]) ∧ Like s s' ∧ s'.sockets = s.sockets := by
  obtain ⟨b, -, h⟩ := bind_ok.mp h
  split at h
  · obtain ⟨cl, hcl, h⟩ := bind_ok.mp h
    cases h
    refine ⟨⟨_, rfl⟩, ?_, rfl⟩
    apply (Like.devices s _).setClient (client_ok hcl)
    intro k
    rw [Client.setNoteData_box]
    exact ⟨rfl, rfl⟩
  · cases h
    exact ⟨⟨_, rfl⟩, Like.refl s, rfl⟩

theorem clearClientNotes_outcome {P : Platform} {s s' : Ipc} {c : Nat}
    (h : s.clearClientNotes P c = .ok s') : Like s s' ∧ s'.sockets = s.sockets := by
  obtain ⟨cl, hcl, h⟩ := bind_ok.mp h
  cases h
  refine ⟨(Like.devices s _).setClient (client_ok hcl) ?_, rfl⟩
  intro k
  rw [Client.clearNoteData_box]
  exact ⟨rfl, rfl⟩

/-- **Every request has one reply, or waits.** -/
theorem serve_outcome {P : Platform} {q : Request} {s s' : Ipc} {c : Nat} {out : List IpcOut}
    (h : q.serve P s c = .ok (s', out)) : Outcome q s c s' out := by
  cases q with
  | tx address payload hlt =>
      rw [Request.serve] at h
      split at h
      · obtain ⟨rfl, b, hb⟩ := transmit_outcome h
        exact .inl ⟨_, hb, trivial, Like.refl _, rfl⟩
      · cases h
  | poll k t => exact poll_outcome h
  | noteFlags d f =>
      obtain ⟨⟨b, hb⟩, hl, hs⟩ := setFlags_outcome h
      exact .inl ⟨_, hb, trivial, hl, hs⟩
  | noteClear =>
      obtain ⟨t, ht, h⟩ := bind_ok.mp h
      cases h
      obtain ⟨hl, hs⟩ := clearClientNotes_outcome ht
      exact .inl ⟨_, rfl, trivial, hl, hs⟩
  | listDevices =>
      cases h
      exact .inl ⟨_, rfl, trivial, Like.refl s, rfl⟩

/-- A poll that waits is in step. -/
theorem Inv.begin {asked : Nat → Option Request} {s s' : Ipc} {c : Nat} {k : Poll} {t : BitVec 32}
    (h : Inv asked s) (hin : (s.sockets c).inbox ≠ []) (hq : asked c = some (.poll k t))
    (hb : Begun (s.setSocket c ⟨[], (s.sockets c).closed⟩) s' c k) : Inv asked s' := by
  obtain ⟨⟨cl, m, hcl, hm, hclients, hlive⟩, hsockets, haccepted⟩ := hb
  have hs : ∀ d, (s'.sockets d).inbox = if d = c then [] else (s.sockets d).inbox := by
    intro d
    rw [hsockets]
    by_cases hdc : d = c
    · rw [hdc, if_pos rfl, Ipc.setSocket_sockets]
    · simp [Ipc.setSocket, hdc]
  have hother : ∀ d cl', s'.clients d = some cl' →
      (d = c ∧ cl' = cl.setBox k m) ∨ (d ≠ c ∧ s.clients d = some cl') := by
    intro d cl' hd
    rw [hclients] at hd
    exact Ipc.update_clients hd
  constructor
  case toSynced =>
    constructor
    · intro d hd
      have hdc : d ≠ c := by
        intro hx
        obtain rfl := hx
        cases hd.symm.trans hq
      rw [hs d, if_neg hdc]
      exact h.silent d hd
    · intro d q hd
      rw [hs d]
      by_cases hdc : d = c
      · rw [hdc, hq] at hd
        rw [if_pos hdc]
        exact .inr ⟨rfl, k, t, (Option.some.inj hd).symm⟩
      · rw [if_neg hdc]
        exact h.unread d q hd
    · intro d cl' hd j
      rw [Waits, hs d]
      rcases hother d cl' hd with ⟨rfl, rfl⟩ | ⟨hdc, hd⟩
      · rw [if_pos rfl, Client.setBox_box, hq]
        by_cases hjk : j = k
        · rw [if_pos hjk, hjk]
          exact iff_of_true hm ⟨⟨t, rfl⟩, rfl⟩
        · rw [if_neg hjk, h.no_ping hin hcl j]
          apply iff_of_false Bool.false_ne_true
          intro hx
          obtain ⟨⟨t', heq⟩, -⟩ := hx
          cases heq
          exact hjk rfl
      · rw [if_neg hdc]
        exact h.ping d cl' hd j
  case timers =>
    intro id j d cl' hl hd
    rcases hother d cl' hd with ⟨rfl, rfl⟩ | ⟨hdc, hd⟩
    · rcases hlive id j d hl with hl | ⟨rfl, -, rfl⟩
      · -- an old timeout: but no poll was waiting
        exact absurd (h.timers id j d cl hl hcl).2 (by simp [h.no_ping hin hcl j])
      · rw [Client.setBox_box, if_pos rfl]
        exact ⟨rfl, hm⟩
    · rcases hlive id j d hl with hl | ⟨-, rfl, -⟩
      · exact h.timers id j d cl' hl hd
      · exact absurd rfl hdc
  case timer_lt =>
    intro id j d hl
    rw [haccepted]
    rcases hlive id j d hl with hl | ⟨-, rfl, -⟩
    · exact h.timer_lt id j d hl
    · by_contra hge
      cases (h.asked_lt d (Nat.le_of_not_lt hge)).symm.trans hq
  case asked_lt =>
    intro d hd
    rw [haccepted] at hd
    exact h.asked_lt d hd

/-- The replies of a callback are solicited, and the invariant holds behind
them. -/
def Follows (asked : Nat → Option Request) (s' : Ipc) (out : List IpcOut) : Prop :=
  Solicited asked (Ipc.replies out) ∧ Inv (answered asked (Ipc.replies out)) s'

theorem Follows.append {asked : Nat → Option Request} {t s' : Ipc} {out outs : List IpcOut}
    (h : Follows asked t out)
    (h' : Inv (answered asked (Ipc.replies out)) t →
      Follows (answered asked (Ipc.replies out)) s' outs) :
    Follows asked s' (out ++ outs) := by
  have h' := h' h.2
  rw [Follows, replies_append, solicited_append, answered_append]
  exact ⟨⟨h.1, h'.1⟩, h'.2⟩

theorem drop_like (s : Ipc) (id : Nat) : Like s (s.drop id) where
  timeouts _ _ _ h := ((MainLoop.mem_remove ..).mp h).1
  accepted := Nat.le_refl _
  clients _ cl h := ⟨cl, h, fun _ => ⟨rfl, rfl⟩⟩

theorem clientIncoming_follows {P : Platform} {asked : Nat → Option Request} {s s' : Ipc}
    {id c : Nat} {stale : BitVec 64} {out : List IpcOut} (h : Inv asked s)
    (hr : s.clientIncoming P id c stale = .ok (s', out)) : Follows asked s' out := by
  have heof : (s.sockets c).inbox = [] → Follows asked s' out := by
    intro hnil
    rw [Ipc.clientIncoming] at hr
    rcases s.read_cases c 1 with ⟨hread, -⟩ | ⟨-, hread⟩
    · rw [hread] at hr
      cases hr
    · rw [hread, hnil, List.take_nil, List.drop_nil, Ipc.setSocket_self hnil] at hr
      cases hr
      exact ⟨trivial, h.like (drop_like s id) fun _ => rfl⟩
  cases hq : asked c with
  | none => exact heof (h.silent c hq)
  | some q =>
      rcases h.unread c q hq with hin | ⟨hnil, -⟩
      · rw [Ipc.clientIncoming_request P hin] at hr
        have hne : (s.sockets c).inbox ≠ [] := hin ▸ q.bytes_ne_nil
        rcases serve_outcome hr with ⟨r, hreply, haccepts, hl, hs⟩ | ⟨k, t, rfl, hreply, hb⟩
        · rw [Follows, hreply]
          refine ⟨⟨⟨q, hq, haccepts⟩, trivial⟩, ?_⟩
          apply h.answer hne ⟨hl.timeouts, hl.accepted, hl.clients⟩
          intro d
          rw [hs]
          by_cases hdc : d = c
          · rw [hdc, if_pos rfl, Ipc.setSocket_sockets]
          · simp [Ipc.setSocket, hdc]
        · rw [Follows, hreply]
          exact ⟨trivial, h.begin hne hq hb⟩
      · exact heof hnil

/-! ## What is received for a client -/

/-- The callback of a poll is called, and its timeout removed. -/
theorem Inv.pinged {asked : Nat → Option Request} {s s' : Ipc} {c : Nat} {cl cl' : Client}
    {k : Poll} (h : Inv asked s) (hc : s.clients c = some cl) (hp : (cl.box k).ping = true)
    (hclients : s'.clients = Function.update s.clients c (some cl'))
    (hk : (cl'.box k).ping = false)
    (hj : ∀ j, j ≠ k → (cl'.box j).timer = (cl.box j).timer ∧ (cl'.box j).ping = (cl.box j).ping)
    (hlive : ∀ p ∈ s'.loop.live, p ∈ s.loop.live ∧ p.1 ≠ (cl.box k).timer)
    (hsockets : s'.sockets = s.sockets) (haccepted : s'.accepted = s.accepted) :
    Inv (Function.update asked c none) s' := by
  obtain ⟨⟨t, hq⟩, hnil⟩ := (h.ping c cl hc k).mp hp
  have hother : ∀ d cl'', s'.clients d = some cl'' →
      (d = c ∧ cl'' = cl') ∨ (d ≠ c ∧ s.clients d = some cl'') := by
    intro d cl'' hd
    rw [hclients] at hd
    exact Ipc.update_clients hd
  constructor
  case toSynced =>
    constructor
    · intro d hd
      rw [hsockets]
      by_cases hdc : d = c
      · rw [hdc]
        exact hnil
      · exact h.silent d (by rwa [Function.update_of_ne hdc] at hd)
    · intro d q hd
      rw [hsockets]
      by_cases hdc : d = c
      · rw [hdc, Function.update_self] at hd
        cases hd
      · exact h.unread d q (by rwa [Function.update_of_ne hdc] at hd)
    · intro d cl'' hd j
      rw [Waits, hsockets]
      rcases hother d cl'' hd with ⟨rfl, rfl⟩ | ⟨hdc, hd⟩
      · rw [Function.update_self]
        refine iff_of_false ?_ fun hw => by obtain ⟨⟨_, heq⟩, -⟩ := hw; cases heq
        by_cases hjk : j = k
        · rw [hjk, hk]
          exact Bool.false_ne_true
        · -- the client does not wait for the other kind
          rw [(hj j hjk).2, h.ping d cl hc j]
          intro hx
          obtain ⟨⟨t', heq⟩, -⟩ := hx
          cases heq.symm.trans hq
          exact hjk rfl
      · rw [Function.update_of_ne hdc]
        exact h.ping d cl'' hd j
  case timers =>
    intro id j d cl'' hl hd
    obtain ⟨hl, hid⟩ := hlive _ hl
    rcases hother d cl'' hd with ⟨rfl, rfl⟩ | ⟨hdc, hd⟩
    · have htimer := h.timers id j d cl hl hc
      by_cases hjk : j = k
      · rw [hjk] at htimer
        exact absurd htimer.1.symm hid
      · rw [(hj j hjk).1, (hj j hjk).2]
        exact htimer
    · exact h.timers id j d cl'' hl hd
  case timer_lt =>
    intro id j d hl
    rw [haccepted]
    exact h.timer_lt id j d (hlive _ hl).1
  case asked_lt =>
    intro d hd
    rw [haccepted] at hd
    by_cases hdc : d = c
    · rw [hdc, Function.update_self]
    · rw [Function.update_of_ne hdc]
      exact h.asked_lt d hd

theorem push_like (cl : Client) (k : Poll) (f : Frame) (j : Poll) :
    ((cl.push k f).box j).timer = (cl.box j).timer
      ∧ ((cl.push k f).box j).ping = (cl.box j).ping := by
  rw [Client.push, Client.setBox_box]
  by_cases hj : j = k
  · rw [if_pos hj, hj]
    exact ⟨rfl, rfl⟩
  · rw [if_neg hj]
    exact ⟨rfl, rfl⟩

/-- **What is received for a client** is kept, or answers the poll that
waits, whose timeout goes. -/
theorem clientPush_cases {s s' : Ipc} {k : Poll} {c : Nat} {f : Frame} {out : List IpcOut}
    (h : s.clientPush k c f = .ok (s', out)) :
    ∃ cl cl', s.clients c = some cl
      ∧ (((cl.box k).ping = false ∧ (∀ j, (cl'.box j).timer = (cl.box j).timer
            ∧ (cl'.box j).ping = (cl.box j).ping) ∧ s' = s.setClient c cl' ∧ out = [])
        ∨ ((cl.box k).ping = true ∧ (cl'.box k).timer = 0 ∧ (cl'.box k).ping = false
          ∧ (∀ j, j ≠ k → (cl'.box j).timer = (cl.box j).timer
            ∧ (cl'.box j).ping = (cl.box j).ping)
          ∧ s' = { s with loop := s.loop.remove (cl.box k).timer }.setClient c cl'
          ∧ ∃ g, out = [.reply c (.frame g)])) := by
  obtain ⟨cl, hcl, h⟩ := bind_ok.mp h
  have hc := client_ok hcl
  dsimp only at h
  split at h
  · rename_i hp
    obtain ⟨cl₁, hcl₁, h⟩ := bind_ok.mp h
    obtain rfl : cl₁ = cl.push k f := by simpa [Ipc.setClient] using (client_ok hcl₁).symm
    dsimp only at h
    split at h
    · cases h
    · rename_i g cl' hpop
      cases h
      refine ⟨cl, cl', hc, .inr ⟨hp, ?_, ?_, ?_, ?_, g, rfl⟩⟩
      · rw [(pop_like hpop k).1, Client.setBox_box, if_pos rfl]
      · rw [(pop_like hpop k).2, Client.setBox_box, if_pos rfl]
      · intro j hj
        rw [(pop_like hpop j).1, (pop_like hpop j).2, Client.setBox_box, if_neg hj]
        exact push_like cl k f j
      · have hloop : (if (cl.box k).timer ≠ 0 then s.loop.remove (cl.box k).timer else s.loop)
            = s.loop.remove (cl.box k).timer := by
          split
          · rfl
          · rename_i h0
            rw [not_not.mp h0, MainLoop.remove_zero]
        simp only [Ipc.setClient, Function.update_idem, (push_like cl k f k).1, hloop]
  · rename_i hp
    cases h
    exact ⟨cl, cl.push k f, hc,
      .inl ⟨Bool.eq_false_iff.mpr hp, push_like cl k f, rfl, rfl⟩⟩

theorem clientPush_follows {asked : Nat → Option Request} {s s' : Ipc} {k : Poll} {c : Nat}
    {f : Frame} {out : List IpcOut} (h : Inv asked s)
    (hr : s.clientPush k c f = .ok (s', out)) : Follows asked s' out := by
  obtain ⟨cl, cl', hc, ⟨-, hlike, rfl, rfl⟩ | ⟨hp, -, hp', hother, rfl, g, rfl⟩⟩ :=
    clientPush_cases hr
  · exact ⟨trivial, h.like ((Like.refl s).setClient hc hlike) fun _ => rfl⟩
  · obtain ⟨t, hq⟩ := ((h.ping c cl hc k).mp hp).1
    exact ⟨⟨⟨_, hq, trivial⟩, trivial⟩, h.pinged hc hp rfl hp' hother
      (fun p hl => (MainLoop.mem_remove ..).mp hl) rfl rfl⟩

theorem pushNotes_follows {asked : Nat → Option Request} {s s' : Ipc} {f : Frame} {cs : List Nat}
    {out : List IpcOut} (h : Inv asked s) (hr : s.pushNotes f cs = .ok (s', out)) :
    Follows asked s' out := by
  induction cs generalizing asked s out with
  | nil =>
      cases hr
      exact ⟨trivial, h⟩
  | cons c cs ih =>
      obtain ⟨⟨t, o⟩, ht, hr⟩ := bind_ok.mp hr
      obtain ⟨⟨u, os⟩, hu, hr⟩ := bind_ok.mp hr
      cases hr
      exact (clientPush_follows h ht).append fun h' => ih h' hu

theorem call_follows {P : Platform} {asked : Nat → Option Request} {s s' : Ipc} {o : IfOut}
    {out : List IpcOut} (h : Inv asked s) (hr : s.call P o = .ok (s', out)) :
    Follows asked s' out := by
  cases o with
  | wrote | free =>
      cases hr
      exact ⟨trivial, h⟩
  | pushRx tag f =>
      cases tag with
      | client c => exact clientPush_follows h hr
      | null => cases hr
      | badEnum => cases hr
  | note f =>
      rw [Ipc.call, Ipc.dispatchNote] at hr
      split at hr
      · exact pushNotes_follows h hr
      · cases hr
  | deviceAdd i t =>
      cases hr
      exact ⟨trivial, h.like (Like.devices s _) fun _ => rfl⟩
  | listen =>
      cases hr
      refine ⟨trivial, h.like ⟨fun id k c hl => ?_, Nat.le_refl _, fun _ cl hc =>
        ⟨cl, hc, fun _ => ⟨rfl, rfl⟩⟩⟩ fun _ => rfl⟩
      rcases (MainLoop.mem_add ..).mp hl with hl | hl
      · exact hl
      · cases hl

theorem calls_follows {P : Platform} {asked : Nat → Option Request} {s s' : Ipc} {os : List IfOut}
    {out : List IpcOut} (h : Inv asked s) (hr : s.calls P os = .ok (s', out)) :
    Follows asked s' out := by
  induction os generalizing asked s out with
  | nil =>
      cases hr
      exact ⟨trivial, h⟩
  | cons o os ih =>
      obtain ⟨⟨t, out₁⟩, ht, hr⟩ := bind_ok.mp hr
      obtain ⟨⟨u, out₂⟩, hu, hr⟩ := bind_ok.mp hr
      cases hr
      exact (call_follows h ht).append fun h' => ih h' hu

/-! ## Events -/

theorem replies_map_sricIf (os : List IfOut) : Daemon.replies (os.map .sricIf) = [] := by
  rw [Daemon.replies, List.filterMap_map]
  exact List.filterMap_eq_nil_iff.mpr fun _ _ => rfl

theorem replies_map_ipc (os : List IpcOut) : Daemon.replies (os.map .ipc) = Ipc.replies os :=
  List.filterMap_map ..

theorem replies_daemon (os : List IfOut) (outs : List IpcOut) :
    Daemon.replies (os.map .sricIf ++ outs.map .ipc) = Ipc.replies outs
      ∧ Daemon.replies (outs.map .ipc ++ os.map .sricIf) = Ipc.replies outs := by
  have h : ∀ a b, Daemon.replies (a ++ b) = Daemon.replies a ++ Daemon.replies b :=
    fun _ _ => List.filterMap_append
  rw [h, h, replies_map_sricIf, replies_map_ipc, List.nil_append, List.append_nil]
  exact ⟨rfl, rfl⟩

theorem new_follows {asked : Nat → Option Request} {s : Ipc} (h : Inv asked s) :
    Inv asked s.new := by
  have htimeouts : ∀ id k c, (id, IpcSource.timeout k c) ∈ s.new.loop.live →
      (id, IpcSource.timeout k c) ∈ s.loop.live := by
    intro id k c hl
    rcases Ipc.new_live.mp hl with hl | ⟨-, hk⟩ | ⟨-, hk⟩
    · exact hl
    · cases hk
    · cases hk
  constructor
  case toSynced =>
    refine ⟨h.silent, h.unread, ?_⟩
    intro c cl hc k
    rcases Ipc.new_clients hc with ⟨rfl, rfl⟩ | ⟨-, hc⟩
    · apply iff_of_false Bool.false_ne_true
      intro hx
      obtain ⟨⟨t, hq⟩, -⟩ := hx
      cases (h.asked_lt _ (Nat.le_refl _)).symm.trans hq
    · exact h.ping c cl hc k
  case timers =>
    intro id k c cl hl hc
    have hl := htimeouts id k c hl
    rcases Ipc.new_clients hc with ⟨rfl, -⟩ | ⟨-, hc⟩
    · exact absurd (h.timer_lt id k _ hl) (Nat.lt_irrefl _)
    · exact h.timers id k c cl hl hc
  case timer_lt => exact fun id k c hl => Nat.lt_succ_of_lt (h.timer_lt id k c (htimeouts id k c hl))
  case asked_lt => exact fun c hc => h.asked_lt c (Nat.le_of_succ_le hc)

/-- A callback of the module, or the end of a connection. -/
theorem ipc_follows {P : Platform} {asked : Nat → Option Request} {s s' : Ipc} {ev : IpcEvent}
    {out : List IpcOut} (h : Inv asked s) (hsent : ∀ c bytes, ev ≠ .sent c bytes)
    (htimeout : ∀ k id c, ev ≠ .timeout k id c) (hs : s.step P ev = .ok (s', out)) :
    Follows asked s' out := by
  have hh := (Ipc.step_handle hs).2
  cases ev with
  | new id =>
      cases hh
      exact ⟨trivial, new_follows h⟩
  | sent c bytes => exact absurd rfl (hsent c bytes)
  | closed c =>
      simp only [Ipc.handle] at hh
      split at hh
      · cases hh
        refine ⟨trivial, h.like ⟨fun _ _ _ hl => hl, Nat.le_refl _, fun _ cl hc =>
          ⟨cl, hc, fun _ => ⟨rfl, rfl⟩⟩⟩ fun d => ?_⟩
        by_cases hdc : d = c
        · rw [hdc, Ipc.setSocket_sockets]
        · simp [Ipc.setSocket, hdc]
      · cases hh
  | incoming id c stale => exact clientIncoming_follows h hh
  | death id c =>
      simp only [Ipc.handle] at hh
      split at hh
      · obtain ⟨⟨t, o⟩, ht, hh⟩ := bind_ok.mp hh
        cases hh
        obtain ⟨u, hu, ht⟩ := bind_ok.mp ht
        cases ht
        obtain ⟨hl, hsockets⟩ := clearClientNotes_outcome hu
        refine ⟨trivial, h.like ⟨?_, hl.accepted, ?_⟩ ?_⟩
        · intro id k c hl'
          exact hl.timeouts id k c ((MainLoop.mem_remove ..).mp hl').1
        · exact fun d cl hd => hl.clients d cl (Ipc.update_gone hd)
        · intro d
          exact congrArg (fun k => (k d).inbox) hsockets
      · cases hh
  | timeout k id c => exact absurd rfl (htimeout k id c)

/-- A client that has its reply makes the next request. -/
theorem Inv.ask {asked : Nat → Option Request} {s : Ipc} {c : Nat} (h : Inv asked s)
    (hnone : asked c = none) (hc : c < s.accepted) (q : Request) :
    Inv (Function.update asked c (some q))
      (s.setSocket c { s.sockets c with inbox := (s.sockets c).inbox ++ q.bytes }) := by
  generalize hs' : s.setSocket c _ = s'
  have hin : ∀ d, (s'.sockets d).inbox = if d = c then q.bytes else (s.sockets d).inbox := by
    intro d
    rw [← hs']
    by_cases hdc : d = c
    · rw [hdc, Ipc.setSocket_sockets, if_pos rfl, h.silent c hnone, List.nil_append]
    · simp [Ipc.setSocket, hdc]
  constructor
  case toSynced =>
    constructor
    · intro d hd
      have hdc : d ≠ c := by
        intro hx
        obtain rfl := hx
        rw [Function.update_self] at hd
        cases hd
      rw [hin d, if_neg hdc]
      exact h.silent d (by rwa [Function.update_of_ne hdc] at hd)
    · intro d q' hd
      rw [hin d]
      by_cases hdc : d = c
      · rw [hdc, Function.update_self] at hd
        rw [if_pos hdc]
        exact .inl (congrArg Request.bytes (Option.some.inj hd))
      · rw [if_neg hdc]
        exact h.unread d q' (by rwa [Function.update_of_ne hdc] at hd)
    · intro d cl hd k
      rw [← hs'] at hd
      rw [Waits, hin d, h.ping d cl hd k, Waits]
      by_cases hdc : d = c
      · rw [hdc, hnone, if_pos rfl]
        exact iff_of_false (fun hw => by obtain ⟨⟨_, heq⟩, -⟩ := hw; cases heq)
          fun hw => q.bytes_ne_nil hw.2
      · rw [if_neg hdc, Function.update_of_ne hdc]
  case timers =>
    rw [← hs']
    exact h.timers
  case timer_lt =>
    rw [← hs']
    exact h.timer_lt
  case asked_lt =>
    intro d hd
    rw [← hs'] at hd
    have hdc : d ≠ c := by
      intro hx
      obtain rfl := hx
      exact absurd hc (Nat.not_lt.mpr hd)
    rw [Function.update_of_ne hdc]
    exact h.asked_lt d hd

theorem daemon_ok {P : Platform} {s s' : Session} {ev : DaemonEvent} {out : List DaemonOut}
    (h : step P s (.daemon ev) = .ok (s', out)) :
    (∀ c bytes, ev ≠ .ipc (.sent c bytes)) ∧ s.daemon.step P ev = .ok (s'.daemon, out)
      ∧ s'.asked = answered s.asked (Daemon.replies out) := by
  rw [step.eq_def] at h
  split at h
  · rename_i heq
    cases heq
  · cases h
  · rename_i hnot heq
    cases heq
    obtain ⟨⟨d, os⟩, hd, h⟩ := bind_ok.mp h
    cases h
    exact ⟨hnot, hd, rfl⟩

/-- **Every event but a timeout keeps the clients in step.** -/
theorem inv_step (P : Platform) {s s' : Session} {ev : SessionEvent} {out : List DaemonOut}
    (h : Inv s.asked s.daemon.ipc) (hno : ev.isTimeout = false)
    (hs : step P s ev = .ok (s', out)) :
    Solicited s.asked (Daemon.replies out) ∧ Inv s'.asked s'.daemon.ipc := by
  cases ev with
  | ask c q =>
      rw [step] at hs
      split at hs
      · rename_i hnone
        obtain ⟨⟨d, os⟩, hd, hs⟩ := bind_ok.mp hs
        cases hs
        obtain ⟨os, hi, -, rfl⟩ := Daemon.ipc_ok hd
        have hh := (Ipc.step_handle hi).2
        simp only [Ipc.handle] at hh
        split at hh
        · rename_i hc
          obtain ⟨hipc, rfl⟩ := Prod.mk.inj (Except.ok.inj hh)
          refine ⟨trivial, ?_⟩
          show Inv _ d.ipc
          rw [← hipc]
          exact h.ask hnone hc.1 q
        · cases hh
      · cases hs
  | daemon ev =>
      obtain ⟨hsent, hd, hasked⟩ := daemon_ok hs
      rw [hasked]
      cases ev with
      | sricIf ev =>
          obtain ⟨os, ipc, outs, -, -, hi, hipc, rfl⟩ := Daemon.sricIf_ok hd
          rw [hipc, (replies_daemon os outs).1]
          exact calls_follows h hi
      | ipc ev =>
          obtain ⟨os, hi, -, rfl⟩ := Daemon.ipc_ok hd
          rw [(replies_daemon _ os).2]
          refine ipc_follows h (fun c bytes he => hsent c bytes (he ▸ rfl)) ?_ hi
          intro k id c hx
          obtain rfl := hx
          cases hno

/-- A timeout leaves the client waiting for what it does not ask. -/
theorem timeout_out_of_step {P : Platform} {s s' : Session} {k : Poll} {id c : Nat}
    {out : List DaemonOut} (h : Inv s.asked s.daemon.ipc)
    (hs : step P s (.daemon (.ipc (.timeout k id c))) = .ok (s', out)) :
    ¬Synced s'.asked s'.daemon.ipc := by
  obtain ⟨-, hd, hasked⟩ := daemon_ok hs
  obtain ⟨os, hi, -, rfl⟩ := Daemon.ipc_ok hd
  obtain ⟨hlive, hh⟩ := Ipc.step_handle hi
  have hout : ∃ t o, s.daemon.ipc.timedOut k id c = .ok (t, o) ∧ s'.daemon.ipc = t
      ∧ Ipc.replies os = Ipc.replies o := by
    cases k with
    | rx =>
        obtain ⟨⟨t, o⟩, ht, hh⟩ := bind_ok.mp hh
        obtain ⟨h₁, h₂⟩ := Prod.mk.inj (Except.ok.inj hh)
        exact ⟨t, o, ht, h₁.symm, by rw [← h₂]; rfl⟩
    | note => exact ⟨_, _, hh, rfl, rfl⟩
  obtain ⟨t, o, ht, hst, hro⟩ := hout
  obtain ⟨cl, hcl, ht⟩ := bind_ok.mp ht
  have hc := client_ok hcl
  obtain ⟨h₁, h₂⟩ := Prod.mk.inj (Except.ok.inj ht)
  intro hsync
  have hclient : s'.daemon.ipc.clients c
      = some (cl.setBox k { cl.box k with timer := 0 }) := by
    rw [hst, ← h₁]
    simp [Ipc.setClient, Ipc.drop]
  have hping := hsync.ping c _ hclient k
  rw [Client.setBox_box, if_pos rfl] at hping
  obtain ⟨⟨t', hq⟩, -⟩ := hping.mp (h.timers id k c cl (hlive _ rfl) hc).2
  rw [hasked, (replies_daemon _ os).2, hro, ← h₂] at hq
  have hnone : Function.update s.asked c none c = some (.poll k t') := hq
  rw [Function.update_self] at hnone
  cases hnone

/-- **Replies are in step with requests**, and the callbacks with the polls
that wait, in exactly the runs in which no poll times out. -/
theorem replies_in_step {P : Platform} {evs : List SessionEvent} {s : Session}
    {os : List DaemonOut} (hr : run (step P) init evs = .ok (s, os)) :
    InStep P evs ↔ ∀ ev ∈ evs, ev.isTimeout = false := by
  -- up to the first timeout the invariant holds
  have hinv : ∀ pre s os, (∀ ev ∈ pre, ev.isTimeout = false) →
      run (step P) init pre = .ok (s, os) → Inv s.asked s.daemon.ipc := by
    intro pre s os hpre hrun
    have hstep : ∀ (s : Session) ev s' o, Inv s.asked s.daemon.ipc → ev.isTimeout = false →
        step P s ev = .ok (s', o) → Inv s'.asked s'.daemon.ipc :=
      fun s ev s' o h hno hs => (inv_step P h hno hs).2
    have hstart : Inv init.asked init.daemon.ipc := inv_init
    exact run_invariant_along (I := fun s : Session => Inv s.asked s.daemon.ipc) hstep hstart
      (along_of_forall hpre) hrun
  constructor
  · intro hstep
    by_contra hsome
    obtain ⟨ev, hev⟩ : ∃ ev, evs.find? SessionEvent.isTimeout = some ev := by
      rw [← Option.isSome_iff_exists, List.find?_isSome]
      simpa using hsome
    obtain ⟨hto, pre, post, hsplit, hpre⟩ := List.find?_eq_some_iff_append.mp hev
    rw [hsplit] at hr
    obtain ⟨u, o, o', hu, hrest, -⟩ := run_append_ok.mp hr
    obtain ⟨u', p, p', hs, -⟩ := run_cons_ok.mp hrest
    have hsync := (hstep pre ev post u o u' p hsplit hu hs).2
    have h := hinv pre u o (by simpa using hpre) hu
    cases ev with
    | ask c q => cases hto
    | daemon ev =>
        cases ev with
        | sricIf ev => cases hto
        | ipc ev =>
            cases ev with
            | timeout k id c => exact timeout_out_of_step h hs hsync
            | _ => cases hto
  · intro hno pre ev post s os s' out hx hpre hs
    obtain rfl := hx
    have h := hinv pre s os (fun e he => hno e (List.mem_append_left _ he)) hpre
    obtain ⟨hsol, h'⟩ := inv_step P h
      (hno ev (List.mem_append_right _ List.mem_cons_self)) hs
    exact ⟨hsol, h'.toSynced⟩

/-- The client of `Daemon.connected` makes a request, and the daemon reads
it. -/
def asks (q : Request) : List SessionEvent := [.ask 0 q, .daemon (.ipc (.incoming 2 0 0))]

/-- It registers for note 5 of device 2, and polls for a note. -/
def polling : List SessionEvent :=
  Daemon.connected.map .daemon ++ asks (.noteFlags 2 0x20) ++ asks (.poll .note 100)

/-- Device 2 sends note 5. -/
def noted : SessionEvent := .daemon (.sricIf (.frame (frameBytes 0x01 2 [5])))

/-- The note arrives in time. -/
theorem replies_in_step_note :
    ∃ s os, run (step .x86) init (polling ++ [noted]) = .ok (s, os)
      ∧ InStep .x86 (polling ++ [noted]) := by
  have hrun : (run (step .x86) init (polling ++ [noted])).toOption.any (fun _ => true) = true := by
    decide +kernel
  obtain ⟨⟨s, os⟩, hr, -⟩ := ok_of_any hrun
  exact ⟨s, os, hr, (replies_in_step hr).mpr (by decide)⟩

theorem Solicited.asked {asked : Nat → Option Request} {rs : List (Nat × Reply)}
    (h : Solicited asked rs) {c : Nat} {r : Reply} (hm : (c, r) ∈ rs) : asked c ≠ none := by
  induction rs generalizing asked with
  | nil => cases hm
  | cons p rs ih =>
      obtain ⟨⟨q, hq, -⟩, hrs⟩ := h
      rcases List.mem_cons.mp hm with rfl | hm
      · rw [hq]
        exact Option.some_ne_none q
      · intro hnone
        apply ih hrs hm
        by_cases hc : c = p.1
        · rw [hc, Function.update_self]
        · rw [Function.update_of_ne hc]
          exact hnone

/-- The poll times out, and then the note arrives. -/
theorem replies_out_of_step :
    ∃ s os, run (step .x86) init (polling ++ [.daemon (.ipc (.timeout .note 4 0)), noted])
        = .ok (s, os)
      ∧ ¬InStep .x86 (polling ++ [.daemon (.ipc (.timeout .note 4 0)), noted]) := by
  have hrun : (run (step .x86) init (polling ++ [.daemon (.ipc (.timeout .note 4 0))])).toOption.any
      (fun p => (p.1.asked 0).isNone && (step .x86 p.1 noted).toOption.any fun q =>
        (Daemon.replies q.2).any fun r => r.1 == 0) = true := by
    decide +kernel
  obtain ⟨⟨s, os⟩, hr, hs⟩ := ok_of_any hrun
  rw [Bool.and_eq_true, Option.isNone_iff_eq_none] at hs
  obtain ⟨⟨s', out⟩, hnote, hreply⟩ := ok_of_any hs.2
  obtain ⟨⟨c, r⟩, hm, hc⟩ := List.any_eq_true.mp hreply
  have hsplit : polling ++ [.daemon (.ipc (.timeout .note 4 0)), noted]
      = (polling ++ [.daemon (.ipc (.timeout .note 4 0))]) ++ noted :: [] := by
    rw [List.append_assoc]
    rfl
  refine ⟨s', os ++ out, ?_, ?_⟩
  · rw [hsplit]
    exact run_append_ok.mpr ⟨s, os, out, hr, run_single.mpr hnote, rfl⟩
  · intro hstep
    have hsol := (hstep _ _ _ s os s' out hsplit hr hnote).1
    apply hsol.asked hm
    obtain rfl : c = 0 := beq_iff_eq.mp hc
    exact hs.1

end Session

end Sricd
