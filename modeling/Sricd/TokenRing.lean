import Mathlib.Data.Finset.Card
import Mathlib.Data.Finset.Image
import Sricd.Ostric

/-!
# The token of the simulated bus

`ostric` passes one token around: from the gateway to its clients, from one
to the next, and back. `advance_token` moves it by one place, unless it is
kept where it is (`advance_token_moves`), and whatever is received in
between, there is never a second one as long as none is generated while
there is one (`never_two_tokens`).
-/

namespace Sricd

open Sricd.Lib

/-! ## The simulation -/

/-- `struct ostric_client`, of the one type that there is. -/
structure OstricClient where
  address : BitVec 32
  hasToken : Bool
  keepToken : Bool
deriving DecidableEq, Repr

/-- A client as `read_arguments` allocates it. -/
def OstricClient.new : OstricClient := ⟨-1, false, false⟩

/-- `gw_token_mode`, `gw_has_token`, `gw_keep_token` and
`ostric_client_list`. -/
structure OstricBus where
  gwTokenMode : Bool
  gwHasToken : Bool
  gwKeepToken : Bool
  clients : List OstricClient
deriving DecidableEq, Repr

/-- `send_msg`: what it writes. Nothing is written where `escape_frame`
gives up. -/
def sendMsg (src dst : Byte) (data : List Byte) : List Byte :=
  let resp := [0x7E, dst, src &&& 0x7F, BitVec.ofNat 8 data.length] ++ data
  let crc := crc16 resp
  let resp := resp ++ [crc.truncate 8, (crc >>> 8).truncate 8]
  match escapeFrame (writeAt (List.replicate 255 0) 0 resp.tail) (5 + data.length) 255 with
  | (buf, some escapedLen) => 0x7E :: buf.take escapedLen
  | (_, none) => []

/-- `emit_ack`. -/
def emitAck (src dst : Byte) : List Byte := sendMsg src (dst ||| 0x80) []

/-- `emit_data_ack`. -/
def emitDataAck (src dst : Byte) (data : List Byte) : List Byte := sendMsg src (dst ||| 0x80) data

namespace OstricClient

/-- `generic_msg`. -/
def genericMsg (this : OstricClient) (buffer : List Byte) : OstricClient × List (List Byte) :=
  let dst := buffer.getD 1 0 &&& 0x7F
  let src := buffer.getD 2 0 &&& 0x7F
  -- messages that are not for us, or broadcast
  if dst.zeroExtend 32 ≠ this.address ∧ dst ≠ 0 then (this, [])
  else
    match (buffer.getD 4 0).toNat with
    -- `SRIC_SYSCMD_RESET`
    | 0x80 => (⟨-1, false, true⟩, [])
    -- `SRIC_SYSCMD_TOK_ADVANCE`
    | 0x81 => ({ this with keepToken := false }, [emitAck (this.address.truncate 8) src])
    -- `SRIC_SYSCMD_ADDR_ASSIGN`
    | 0x82 =>
        if this.address ≠ -1 ∨ this.hasToken = false then (this, [])
        else
          let address := buffer.getD 5 0 &&& 0x7F
          ({ this with address := address.zeroExtend 32 }, [emitAck address src])
    -- `SRIC_SYSCMD_ADDR_INFO`
    | 0x83 => (this, [emitDataAck (this.address.truncate 8) src [0]])
    | _ => (this, [])

/-- `juggle_token`, with `token_on_wire` before and after. -/
def juggleToken (tokenOnWire : Bool) (client : OstricClient) : OstricClient × Bool :=
  if client.hasToken && client.keepToken then (client, false)
  else ({ client with hasToken := tokenOnWire }, client.hasToken)

/-- `g_slist_foreach` of `juggle_token`. -/
def juggleTokens : Bool → List OstricClient → List OstricClient × Bool
  | tokenOnWire, [] => ([], tokenOnWire)
  | tokenOnWire, client :: clients =>
      let (client, tokenOnWire) := juggleToken tokenOnWire client
      let (clients, tokenOnWire) := juggleTokens tokenOnWire clients
      (client :: clients, tokenOnWire)

end OstricClient

namespace OstricBus

/-- Behind `read_arguments`, with `n` clients. -/
def init (n : Nat) : OstricBus := ⟨false, false, false, List.replicate n .new⟩

/-- `bus_command`. -/
def busCommand (s : OstricBus) (buffer : List Byte) : OstricBus × List (List Byte) :=
  let results := s.clients.map fun client => client.genericMsg buffer
  ({ s with clients := results.map Prod.fst }, results.flatMap Prod.snd)

/-- `gateway_command`. -/
def gatewayCommand (s : OstricBus) (buffer : List Byte) : OstricBus × List (List Byte) :=
  let src := buffer.getD 1 0
  let dst := buffer.getD 2 0
  if buffer.length < 5 then (s, [])
  else
    match (buffer.getD 4 0).toNat with
    -- `GW_CMD_USE_TOKEN`
    | 0 =>
        if buffer.length ≠ 8 then (s, [])
        else ({ s with gwTokenMode := buffer.getD 5 0 != 0 }, [emitAck src dst])
    -- `GW_CMD_REQ_TOKEN`
    | 1 => ({ s with gwKeepToken := true }, [emitAck src dst])
    -- `GW_CMD_HAVE_TOKEN`
    | 2 => (s, [emitDataAck src dst [if s.gwHasToken then 1 else 0]])
    -- `GW_CMD_GEN_TOKEN`
    | 3 => ({ s with gwHasToken := true, gwKeepToken := false }, [emitAck src dst])
    | _ => (s, [])

/-- `advance_token`. -/
def advanceToken (s : OstricBus) : OstricBus :=
  if s.gwKeepToken && s.gwHasToken then s
  else
    let (clients, tokenOnWire) := OstricClient.juggleTokens s.gwHasToken s.clients
    { s with gwHasToken := tokenOnWire, clients }

/-- What happens to the bus: a command that `process_command` dispatches,
or a prod at the token. -/
inductive Event where
  | command (c : Command)
  | advance
deriving DecidableEq

/-- One event. -/
def step (s : OstricBus) : Event → Except Halt (OstricBus × List (List Byte))
  | .command (.gateway buffer) => .ok (s.gatewayCommand buffer)
  | .command (.bus buffer) => .ok (s.busCommand buffer)
  | .advance => .ok (s.advanceToken, [])

/-! ## The ring -/

/-- The places of the ring that hold a token: 0 is the gateway, and `i + 1`
the client with index `i`. -/
def hasAt (s : OstricBus) : Nat → Bool
  | 0 => s.gwHasToken
  | i + 1 => (s.clients[i]?).any OstricClient.hasToken

/-- The places that are set to keep it. -/
def keepsAt (s : OstricBus) : Nat → Bool
  | 0 => s.gwKeepToken
  | i + 1 => (s.clients[i]?).any OstricClient.keepToken

/-- The next place. -/
def next (s : OstricBus) (i : Nat) : Nat := if i = s.clients.length then 0 else i + 1

/-- Where a token goes from a place. -/
def dest (s : OstricBus) (i : Nat) : Nat := if s.keepsAt i then i else s.next i

def holders (s : OstricBus) : Finset Nat :=
  (Finset.range (s.clients.length + 1)).filter fun i => s.hasAt i = true

/-- The number of tokens. -/
def tokens (s : OstricBus) : Nat := s.holders.card

end OstricBus

/-! ## One round -/

namespace OstricClient

theorem juggleTokens_length (wire : Bool) (cs : List OstricClient) :
    (juggleTokens wire cs).1.length = cs.length := by
  induction cs generalizing wire with
  | nil => rfl
  | cons c cs ih =>
      show (juggleTokens (juggleToken wire c).2 cs).1.length + 1 = cs.length + 1
      rw [ih]

theorem juggleToken_hasToken (wire : Bool) (c : OstricClient) :
    (juggleToken wire c).1.hasToken = (c.hasToken && c.keepToken || wire)
      ∧ (juggleToken wire c).2 = (c.hasToken && !c.keepToken) := by
  rw [juggleToken]
  cases hhas : c.hasToken <;> cases hkeep : c.keepToken <;> simp [hhas]

/-- A client has the token if it has kept it, or the place before has
passed it on. -/
theorem juggleTokens_hasToken (wire : Bool) (cs : List OstricClient) (i : Nat) :
    ((juggleTokens wire cs).1[i]?).any hasToken
      = ((cs[i]?).any (fun c => c.hasToken && c.keepToken)
        || (decide (i < cs.length)
          && match i with
            | 0 => wire
            | j + 1 => (cs[j]?).any fun c => c.hasToken && !c.keepToken)) := by
  induction cs generalizing wire i with
  | nil => simp [juggleTokens]
  | cons c cs ih =>
      obtain ⟨hhas, hwire⟩ := juggleToken_hasToken wire c
      show (((juggleToken wire c).1 :: (juggleTokens (juggleToken wire c).2 cs).1)[i]?).any _ = _
      cases i with
      | zero => simpa using hhas
      | succ i =>
          rw [List.getElem?_cons_succ, ih, List.getElem?_cons_succ, List.length_cons]
          cases i with
          | zero => simp [hwire]
          | succ i => simp

/-- The last client passes it on to the gateway. -/
theorem juggleTokens_wire (wire : Bool) (cs : List OstricClient) :
    (juggleTokens wire cs).2
      = match cs.getLast? with
        | none => wire
        | some c => c.hasToken && !c.keepToken := by
  induction cs generalizing wire with
  | nil => rfl
  | cons c cs ih =>
      show (juggleTokens (juggleToken wire c).2 cs).2 = _
      rw [ih, (juggleToken_hasToken wire c).2]
      cases cs with
      | nil => rfl
      | cons d ds => rw [List.getLast?_cons_cons]; simp [List.getLast?_cons]

end OstricClient

namespace OstricBus

variable {s : OstricBus}

theorem mem_holders {i : Nat} : i ∈ s.holders ↔ i ≤ s.clients.length ∧ s.hasAt i = true := by
  rw [holders, Finset.mem_filter, Finset.mem_range, Nat.lt_succ_iff]

/-- Behind a round that the gateway does not sit out, a client has the
token if it kept it, or the place before passed it on. -/
theorem advance_hasAt_succ (h : ¬(s.gwKeepToken && s.gwHasToken) = true) (i : Nat) :
    s.advanceToken.hasAt (i + 1)
      = (s.hasAt (i + 1) && s.keepsAt (i + 1)
        || (decide (i < s.clients.length) && (s.hasAt i && !s.keepsAt i))) := by
  rw [advanceToken, if_neg h]
  show ((OstricClient.juggleTokens s.gwHasToken s.clients).1[i]?).any _ = _
  rw [OstricClient.juggleTokens_hasToken]
  congr 1
  · rw [hasAt, keepsAt]
    cases s.clients[i]? <;> rfl
  · congr 1
    cases i with
    | zero =>
        show s.gwHasToken = (s.gwHasToken && !s.gwKeepToken)
        revert h
        cases s.gwHasToken <;> cases s.gwKeepToken <;> simp
    | succ i =>
        rw [hasAt, keepsAt]
        dsimp only
        cases s.clients[i]? <;> rfl

/-- And the gateway has it if the last place passed it on. -/
theorem advance_hasAt_zero (h : ¬(s.gwKeepToken && s.gwHasToken) = true) :
    s.advanceToken.hasAt 0
      = (s.hasAt s.clients.length && !s.keepsAt s.clients.length) := by
  rw [advanceToken, if_neg h]
  show (OstricClient.juggleTokens s.gwHasToken s.clients).2 = _
  rw [OstricClient.juggleTokens_wire, List.getLast?_eq_getElem?]
  cases hn : s.clients.length with
  | zero =>
      rw [List.length_eq_zero_iff.mp hn]
      show s.gwHasToken = (s.gwHasToken && !s.gwKeepToken)
      revert h
      cases s.gwHasToken <;> cases s.gwKeepToken <;> simp
  | succ n =>
      have hlt : n < s.clients.length := by omega
      rw [hasAt, keepsAt, Nat.add_sub_cancel, List.getElem?_eq_getElem hlt]
      rfl

theorem advance_length (s : OstricBus) : s.advanceToken.clients.length = s.clients.length := by
  rw [advanceToken]
  split
  · rfl
  · exact OstricClient.juggleTokens_length _ _

/-- **One round, seen from above**: each token goes where the ring has
it go, unless the gateway sits the round out. -/
theorem holders_advance (h : ¬(s.gwKeepToken && s.gwHasToken) = true) :
    s.advanceToken.holders = s.holders.image s.dest := by
  ext j
  rw [mem_holders, advance_length, Finset.mem_image]
  constructor
  · intro hx
    obtain ⟨hj, hhas⟩ := hx
    cases j with
    | zero =>
        rw [advance_hasAt_zero h, Bool.and_eq_true, Bool.not_eq_true'] at hhas
        refine ⟨s.clients.length, mem_holders.mpr ⟨Nat.le_refl _, hhas.1⟩, ?_⟩
        rw [dest, hhas.2, if_neg Bool.false_ne_true, next, if_pos rfl]
    | succ j =>
        rw [advance_hasAt_succ h, Bool.or_eq_true, Bool.and_eq_true, Bool.and_eq_true,
          Bool.and_eq_true, Bool.not_eq_true'] at hhas
        rcases hhas with ⟨hhas, hkeep⟩ | ⟨hlt, hhas, hkeep⟩
        · exact ⟨j + 1, mem_holders.mpr ⟨hj, hhas⟩, if_pos hkeep⟩
        · refine ⟨j, mem_holders.mpr ⟨Nat.le_of_succ_le hj, hhas⟩, ?_⟩
          rw [dest, hkeep, if_neg Bool.false_ne_true, next,
            if_neg (Nat.ne_of_lt (of_decide_eq_true hlt))]
  · intro hx
    obtain ⟨i, hi, rfl⟩ := hx
    obtain ⟨hle, hhas⟩ := mem_holders.mp hi
    rw [dest]
    cases hkeep : s.keepsAt i with
    | true =>
        rw [if_pos rfl]
        refine ⟨hle, ?_⟩
        cases i with
        | zero =>
            refine absurd ?_ h
            change s.gwKeepToken = true at hkeep
            change s.gwHasToken = true at hhas
            rw [hkeep, hhas]
            rfl
        | succ i => rw [advance_hasAt_succ h, hhas, hkeep, Bool.and_self, Bool.true_or]
    | false =>
        rw [if_neg Bool.false_ne_true, next]
        split
        · rename_i hlast
          refine ⟨Nat.zero_le _, ?_⟩
          rw [advance_hasAt_zero h, ← hlast, hhas, hkeep]
          rfl
        · rename_i hlast
          refine ⟨by omega, ?_⟩
          rw [advance_hasAt_succ h, hhas, hkeep, decide_eq_true (show i < s.clients.length by omega)]
          simp

/-- With one token at most, that goes for every round. -/
theorem holders_advance_of_le (h : s.tokens ≤ 1) :
    s.advanceToken.holders = s.holders.image s.dest := by
  by_cases hgw : (s.gwKeepToken && s.gwHasToken) = true
  · -- it is the gateway's
    obtain ⟨hkeep, hhas⟩ := Bool.and_eq_true_iff.mp hgw
    have h0 : 0 ∈ s.holders := mem_holders.mpr ⟨Nat.zero_le _, hhas⟩
    have hone : s.holders = {0} :=
      Finset.eq_singleton_iff_unique_mem.mpr
        ⟨h0, fun i hi => Finset.card_le_one.mp h i hi 0 h0⟩
    have hdest : s.dest 0 = 0 := if_pos hkeep
    rw [advanceToken, if_pos hgw, hone, Finset.image_singleton, hdest]
  · exact holders_advance hgw

/-- **`advance_token` conserves the token**: with one at most, there are as
many behind it as before, and the one that there is stays where it is kept,
and goes to the next place where it is not. -/
theorem advance_token_moves (s : OstricBus) (h : s.tokens ≤ 1) :
    s.advanceToken.tokens = s.tokens
      ∧ ∀ i ∈ s.holders,
        s.advanceToken.holders = {if s.keepsAt i then i else s.next i} := by
  have himage := holders_advance_of_le h
  constructor
  · rw [tokens, tokens, himage]
    apply Finset.card_image_of_injOn
    intro i hi j hj _
    exact Finset.card_le_one.mp h i hi j hj
  · intro i hi
    have hone : s.holders = {i} :=
      Finset.eq_singleton_iff_unique_mem.mpr
        ⟨hi, fun j hj => Finset.card_le_one.mp h j hj i hi⟩
    rw [himage, hone, Finset.image_singleton, dest]

/-! ## All runs -/

/-- `GEN_TOKEN`. -/
def Event.generates : Event → Bool
  | .command (.gateway buffer) => decide (5 ≤ buffer.length) && buffer.getD 4 0 == 3
  | _ => false

/-- A frame on the bus takes the token from the clients that it resets, and
gives it to none. -/
theorem busCommand_holders (s : OstricBus) (buffer : List Byte) :
    (s.busCommand buffer).1.holders ⊆ s.holders := by
  have hclient : ∀ c : OstricClient, (c.genericMsg buffer).1.hasToken = true →
      c.hasToken = true := by
    intro c h
    rw [OstricClient.genericMsg] at h
    dsimp only at h
    split at h
    · exact h
    · split at h
      · cases h
      · exact h
      · split at h <;> exact h
      · exact h
      · exact h
  intro i hi
  obtain ⟨hle, hhas⟩ := mem_holders.mp hi
  rw [busCommand] at hle hhas
  dsimp only at hle hhas
  rw [List.length_map, List.length_map] at hle
  refine mem_holders.mpr ⟨hle, ?_⟩
  cases i with
  | zero => exact hhas
  | succ i =>
      rw [hasAt] at hhas ⊢
      dsimp only at hhas
      rw [List.map_map, List.getElem?_map] at hhas
      cases hc : s.clients[i]? with
      | none => rw [hc] at hhas; cases hhas
      | some c =>
          rw [hc] at hhas
          exact hclient c hhas

/-- A command to the gateway leaves the clients alone, and the gateway has
the token behind it if it had it before, or generates it. -/
theorem gatewayCommand_holders (s : OstricBus) (buffer : List Byte) :
    (s.gatewayCommand buffer).1.clients = s.clients
      ∧ (s.gatewayCommand buffer).1.gwHasToken
        = (s.gwHasToken || (Event.command (.gateway buffer)).generates) := by
  have hgen : (buffer.getD 4 0 == 3) = decide ((buffer.getD 4 0).toNat = 3) := by
    rw [Bool.beq_eq_decide_eq]
    exact decide_eq_decide.mpr ⟨congrArg BitVec.toNat, fun h => BitVec.eq_of_toNat_eq (y := 3#8) h⟩
  rw [gatewayCommand, Event.generates, hgen]
  by_cases h5 : buffer.length < 5
  · rw [if_pos h5, decide_eq_false (Nat.not_le_of_lt h5), Bool.false_and, Bool.or_false]
    exact ⟨rfl, rfl⟩
  · rw [if_neg h5, decide_eq_true (Nat.le_of_not_lt h5), Bool.true_and]
    split
    · rename_i h4
      rw [h4, decide_eq_false (by decide), Bool.or_false]
      split <;> exact ⟨rfl, rfl⟩
    · rename_i h4
      rw [h4, decide_eq_false (by decide), Bool.or_false]
      exact ⟨rfl, rfl⟩
    · rename_i h4
      rw [h4, decide_eq_false (by decide), Bool.or_false]
      exact ⟨rfl, rfl⟩
    · rename_i h4
      rw [h4, decide_eq_true rfl, Bool.or_true]
      exact ⟨rfl, rfl⟩
    · rename_i h3
      rw [decide_eq_false h3, Bool.or_false]
      exact ⟨rfl, rfl⟩

/-- **One event**: there is still one token at most, if a token is
generated only where there is none. -/
theorem tokens_step {s s' : OstricBus} {ev : Event} {out : List (List Byte)} (h : s.tokens ≤ 1)
    (hgen : ev.generates = true → s.tokens = 0) (hs : s.step ev = .ok (s', out)) :
    s'.tokens ≤ 1 := by
  cases ev with
  | advance =>
      cases hs
      exact (advance_token_moves s h).1.trans_le h
  | command c =>
      cases c with
      | bus buffer =>
          obtain rfl : _ = s' := congrArg Prod.fst (Except.ok.inj hs)
          exact (Finset.card_le_card (s.busCommand_holders buffer)).trans h
      | gateway buffer =>
          obtain rfl : _ = s' := congrArg Prod.fst (Except.ok.inj hs)
          obtain ⟨hclients, hgw⟩ := s.gatewayCommand_holders buffer
          -- the places but the first are as they were
          have hsucc : ∀ i, (s.gatewayCommand buffer).1.hasAt (i + 1) = s.hasAt (i + 1) := by
            intro i
            rw [hasAt, hasAt, hclients]
          cases hg : (Event.command (.gateway buffer)).generates with
          | false =>
              rw [hg, Bool.or_false] at hgw
              have hsame : (s.gatewayCommand buffer).1.holders = s.holders := by
                ext i
                rw [mem_holders, mem_holders, hclients]
                cases i with
                | zero => rw [hasAt, hasAt, hgw]
                | succ i => rw [hsucc]
              rw [tokens, hsame]
              exact h
          | true =>
              have hnone : s.holders = ∅ := Finset.card_eq_zero.mp (hgen hg)
              have honly : (s.gatewayCommand buffer).1.holders ⊆ {0} := by
                intro i hi
                obtain ⟨hle, hhas⟩ := mem_holders.mp hi
                cases i with
                | zero => exact Finset.mem_singleton_self 0
                | succ i =>
                    rw [hclients] at hle
                    rw [hsucc] at hhas
                    have hmem := mem_holders.mpr ⟨hle, hhas⟩
                    rw [hnone] at hmem
                    exact absurd hmem (Finset.notMem_empty _)
              exact (Finset.card_le_card honly).trans (Finset.card_singleton 0).le

/-- **There is never more than one token**, in any run of frames, commands
and rounds in which a token is generated only where there is none. -/
theorem never_two_tokens {s t : OstricBus} {evs : List Event} {outs : List (List Byte)}
    (h : s.tokens ≤ 1)
    (hgen : Along step (fun s ev => ev.generates = true → s.tokens = 0) s evs)
    (hr : run step s evs = .ok (t, outs)) : t.tokens ≤ 1 :=
  run_invariant_along (I := fun s => s.tokens ≤ 1)
    (fun _ _ _ _ hs hc hstep => tokens_step hs hc hstep) h hgen hr

/-- **The token is conserved**: a round moves it by one place or leaves it
where it is kept, and there is never a second one. -/
theorem token_conserved :
    (∀ s : OstricBus, s.tokens ≤ 1 → s.advanceToken.tokens = s.tokens
      ∧ ∀ i ∈ s.holders, s.advanceToken.holders = {if s.keepsAt i then i else s.next i})
    ∧ ∀ (s t : OstricBus) (evs : List Event) (outs : List (List Byte)), s.tokens ≤ 1 →
      Along step (fun s ev => ev.generates = true → s.tokens = 0) s evs →
      run step s evs = .ok (t, outs) → t.tokens ≤ 1 :=
  ⟨advance_token_moves, fun _ _ _ _ => never_two_tokens⟩

/-- Two clients, a token that is generated, and two rounds: the first client
passes it on, and the second, which was reset, keeps it. -/
theorem token_conserved_two_clients :
    (⟨false, false, false, [⟨2, true, false⟩, ⟨-1, false, true⟩]⟩ : OstricBus).advanceToken.holders
        = {2}
      ∧ ∃ t outs, run step (.init 2) [.command (.gateway [0x8E, 1, 1, 1, 3, 0, 0]), .advance,
        .command (.bus [0x7E, 0, 1, 1, 0x80, 0, 0]), .advance] = .ok (t, outs)
        ∧ t.tokens ≤ 1 := by
  refine ⟨(token_conserved.1 ⟨false, false, false, [⟨2, true, false⟩, ⟨-1, false, true⟩]⟩
    (by decide)).2 1 (by decide), ?_⟩
  obtain ⟨⟨t, outs⟩, hr, -⟩ := ok_of_any (r := run step (.init 2)
    [.command (.gateway [0x8E, 1, 1, 1, 3, 0, 0]), .advance,
      .command (.bus [0x7E, 0, 1, 1, 0x80, 0, 0]), .advance]) (p := fun _ => true)
    (by decide +kernel)
  exact ⟨t, outs, hr, token_conserved.2 _ t _ outs (by decide) (by decide +kernel) hr⟩

end OstricBus

end Sricd
