import Sricd.EnumBus
import Sricd.Replies

/-!
# The simulated bus while it is enumerated

What `ostric` makes of the frames of enumeration. Before there is a token
no client has an address. Then the clients in front of the token have the
addresses from 2 on, in order, and the others, which were reset, wait for
the token to come round (`ring`).
-/

namespace Sricd

open Sricd.Lib

/-- The frame is processed; what is written in answer. -/
def OstricBus.hear (s : OstricBus) (f : FrameT) : OstricBus × List (List Byte) :=
  match f.command with
  | .gateway buffer => s.gatewayCommand buffer
  | .bus buffer => s.busCommand buffer

/-- The frames that the daemon receives of what was written. -/
def received (out : List (List Byte)) : List (List Byte) := (sricDeframer.feed .hunt out.flatten).2

/-- Whatever `ostric` writes is received. -/
theorem received_sent (ms : List Message) :
    received (ms.map Message.sent) = ms.map Message.bytes := by
  have hfeed : (sricDeframer.feed .hunt (ms.map Message.sent).flatten)
      = (.hunt, ms.map Message.bytes) := by
    induction ms with
    | nil => rfl
    | cons m ms ih =>
        rw [List.map_cons, List.flatten_cons, Deframer.feed_append, m.sent_wire,
          m.carries.feed_wire rfl, ih]
        rfl
  rw [received, hfeed]

/-- What the daemon makes of it. -/
def heard (out : List (List Byte)) : List PackedFrame := (received out).map PackedFrame.ofBytes

/-- It is heard as it was meant. -/
theorem heard_sent (ms : List Message) : heard (ms.map Message.sent) = ms.map Message.packed := by
  rw [heard, received_sent, List.map_map]
  exact List.map_congr_left fun m _ => m.packed_bytes

/-- **What is written in answer** to a frame of the daemon is acks for
it. -/
theorem received_acks (s : OstricBus) (f : FrameT) : ∀ bytes ∈ received (s.hear f).2,
    (PackedFrame.ofBytes bytes).forMe = true ∧ (PackedFrame.ofBytes bytes).isAck = true := by
  have hacks : ∀ o ∈ (s.hear f).2, ∃ dst, dst = 1 ∧ EmittedAck dst o := by
    intro o ho
    rw [OstricBus.hear, FrameT.command] at ho
    cases hf : f.type with
    | gwConf =>
        simp only [hf] at ho
        exact ⟨_, rfl, s.gatewayCommand_acks f.bytes o ho⟩
    | sric =>
        simp only [hf] at ho
        exact ⟨1 &&& 0x7F, by decide, s.busCommand_acks f.bytes o ho⟩
  obtain ⟨ms, hms, hdst⟩ := messages_of_acks hacks
  rw [hms, received_sent]
  intro bytes hb
  obtain ⟨m, hm, rfl⟩ := List.mem_map.mp hb
  obtain ⟨hack, dst, rfl, hto⟩ := hdst m hm
  rw [m.packed_bytes]
  refine ⟨?_, hack⟩
  rw [PackedFrame.forMe, Message.packed, hto]
  show ((1 ||| 0x80 : Byte) &&& 0x7F == 1) = true
  decide

/-- One ack. -/
theorem heard_emitAck (src dst : Byte) :
    heard [emitAck src dst] = [⟨dst ||| 0x80, src &&& 0x7F, []⟩] :=
  heard_sent [.ack src dst [] (by decide)]

theorem heard_emitDataAck (src dst b : Byte) :
    heard [emitDataAck src dst [b]] = [⟨dst ||| 0x80, src &&& 0x7F, [b]⟩] :=
  heard_sent [.ack src dst [b] (Nat.le_add_left 1 63)]

theorem heard_replicate (n : Nat) (src dst : Byte) :
    heard (List.replicate n (emitAck src dst))
      = List.replicate n ⟨dst ||| 0x80, src &&& 0x7F, []⟩ := by
  have h := heard_sent (List.replicate n (.ack src dst [] (by decide)))
  rw [List.map_replicate, List.map_replicate] at h
  exact h

/-! ## Clients -/

namespace OstricClient

/-- A client that has no address. -/
def unaddressed (hasToken keepToken : Bool) : OstricClient := ⟨-1, hasToken, keepToken⟩

def addressed (a : Nat) (hasToken keepToken : Bool) : OstricClient :=
  ⟨BitVec.ofNat 32 a, hasToken, keepToken⟩

/-- An address that is assigned, as a byte and as the `int` of a client. -/
theorem byte_address {a : Nat} (ha : a < deviceHighAddress) :
    (BitVec.ofNat 8 a &&& 0x7F : Byte) = BitVec.ofNat 8 a
      ∧ (BitVec.ofNat 8 a &&& 0x7F : Byte).zeroExtend 32 = BitVec.ofNat 32 a
      ∧ (BitVec.ofNat 32 a).truncate 8 = BitVec.ofNat 8 a := by
  have h128 : deviceHighAddress = 128 := rfl
  have hmod : a % 256 = a := Nat.mod_eq_of_lt (by omega)
  have hmask : (BitVec.ofNat 8 a &&& 0x7F : Byte) = BitVec.ofNat 8 a := by
    apply BitVec.eq_of_toNat_eq
    have hand : a &&& 127 = a % 2 ^ 7 := Nat.and_two_pow_sub_one_eq_mod a 7
    rw [BitVec.toNat_and, BitVec.toNat_ofNat]
    show a % 256 &&& 127 = a % 256
    rw [hmod, hand]
    omega
  refine ⟨hmask, ?_, ?_⟩
  · rw [hmask]
    apply BitVec.eq_of_toNat_eq
    simp only [BitVec.truncate_eq_setWidth, BitVec.toNat_setWidth, BitVec.toNat_ofNat]
    omega
  · apply BitVec.eq_of_toNat_eq
    simp only [BitVec.truncate_eq_setWidth, BitVec.toNat_setWidth, BitVec.toNat_ofNat]
    omega

variable (c : OstricClient)

theorem genericMsg_reset : c.genericMsg sendReset.bytes = (unaddressed false true, []) := by
  rw [genericMsg]
  exact if_neg fun h => h.2 rfl

theorem genericMsg_tokAdvance_all : c.genericMsg (sendTokAdvance 0).bytes
    = ({ c with keepToken := false }, [emitAck (c.address.truncate 8) 1]) := by
  rw [genericMsg]
  exact if_neg fun h => h.2 rfl

theorem genericMsg_tokAdvance {a : Nat} (h2 : 2 ≤ a) (ha : a < deviceHighAddress) :
    c.genericMsg (sendTokAdvance a).bytes
      = if c.address = BitVec.ofNat 32 a then
          ({ c with keepToken := false }, [emitAck (BitVec.ofNat 8 a) 1])
        else (c, []) := by
  have h128 : deviceHighAddress = 128 := rfl
  obtain ⟨hmask, hwide, htrunc⟩ := byte_address ha
  have hne : (BitVec.ofNat 8 a : Byte) ≠ 0 := by
    intro h
    have := congrArg BitVec.toNat h
    rw [BitVec.toNat_ofNat] at this
    simp at this
    omega
  have hgen : c.genericMsg (sendTokAdvance a).bytes
      = if (BitVec.ofNat 8 a &&& 0x7F : Byte).zeroExtend 32 ≠ c.address
          ∧ (BitVec.ofNat 8 a &&& 0x7F : Byte) ≠ 0 then (c, [])
        else ({ c with keepToken := false }, [emitAck (c.address.truncate 8) 1]) := by
    have hdst : (sendTokAdvance a).bytes.getD 1 0 = BitVec.ofNat 8 a := rfl
    have hsrc : (sendTokAdvance a).bytes.getD 2 0 = 1 := rfl
    have hcmd : (sendTokAdvance a).bytes.getD 4 0 = 0x81 := rfl
    rw [genericMsg, hdst, hsrc, hcmd]
    rfl
  rw [hgen, hwide, hmask]
  by_cases hc : c.address = BitVec.ofNat 32 a
  · rw [if_neg fun h => h.1 hc.symm, if_pos hc, hc, htrunc]
  · rw [if_pos ⟨fun h => hc h.symm, hne⟩, if_neg hc]

theorem genericMsg_sendAddress {a : Nat} (ha : a < deviceHighAddress) :
    c.genericMsg (sendAddress a).bytes
      = if c.address = -1 ∧ c.hasToken = true then
          ({ c with address := BitVec.ofNat 32 a }, [emitAck (BitVec.ofNat 8 a) 1])
        else (c, []) := by
  obtain ⟨hmask, hwide, -⟩ := byte_address ha
  have hgen : c.genericMsg (sendAddress a).bytes
      = if c.address ≠ -1 ∨ c.hasToken = false then (c, [])
        else ({ c with address := (BitVec.ofNat 8 a &&& 0x7F : Byte).zeroExtend 32 },
          [emitAck (BitVec.ofNat 8 a &&& 0x7F) 1]) := by
    have hdst : (sendAddress a).bytes.getD 1 0 = 0 := rfl
    have hsrc : (sendAddress a).bytes.getD 2 0 = 1 := rfl
    have hcmd : (sendAddress a).bytes.getD 4 0 = 0x82 := rfl
    have haddr : (sendAddress a).bytes.getD 5 0 = BitVec.ofNat 8 a := rfl
    rw [genericMsg, hdst, hsrc, hcmd, haddr]
    rw [if_neg fun h => h.2 rfl]
    rfl
  rw [hgen, hwide, hmask]
  by_cases hc : c.address = -1 ∧ c.hasToken = true
  · rw [if_neg (by simp [hc.1, hc.2]), if_pos hc]
  · rw [if_pos, if_neg hc]
    by_cases haddr : c.address = -1
    · exact .inr (Bool.eq_false_iff.mpr fun h => hc ⟨haddr, h⟩)
    · exact .inl haddr

/-- The clients that the token has passed. -/
def passed (j : Nat) : List OstricClient :=
  (List.range j).map fun i => addressed (i + 2) false false

/-- The clients that it has not reached. -/
def waiting (m : Nat) : List OstricClient := List.replicate m (unaddressed false true)

/-- The first of them holds it. -/
def holding : Nat → List OstricClient
  | 0 => []
  | m + 1 => unaddressed true true :: waiting m

theorem passed_succ (j : Nat) : passed (j + 1) = passed j ++ [addressed (j + 2) false false] := by
  rw [passed, List.range_succ, List.map_append]
  rfl

theorem mem_passed {j : Nat} {c : OstricClient} (h : c ∈ passed j) :
    ∃ i < j, c = addressed (i + 2) false false := by
  obtain ⟨i, hi, rfl⟩ := List.mem_map.mp h
  exact ⟨i, List.mem_range.mp hi, rfl⟩

theorem address_inj {a b : Nat} (ha : a < deviceHighAddress) (hb : b < deviceHighAddress)
    (h : BitVec.ofNat 32 a = BitVec.ofNat 32 b) : a = b := by
  have h128 : deviceHighAddress = 128 := rfl
  have := congrArg BitVec.toNat h
  rw [BitVec.toNat_ofNat, BitVec.toNat_ofNat] at this
  omega

theorem address_ne {a : Nat} (ha : a < deviceHighAddress) : BitVec.ofNat 32 a ≠ -1 := by
  have h128 : deviceHighAddress = 128 := rfl
  intro h
  have := congrArg BitVec.toNat h
  rw [BitVec.toNat_ofNat] at this
  simp at this
  omega

/-- The clients do nothing, and write nothing. -/
def unmoved (cs : List OstricClient) : List (OstricClient × List (List Byte)) := cs.map fun c => (c, [])

theorem unmoved_fst (cs : List OstricClient) : (unmoved cs).map Prod.fst = cs := by
  rw [unmoved, List.map_map]
  exact List.map_id _

theorem unmoved_snd (cs : List OstricClient) : (unmoved cs).flatMap Prod.snd = [] := by
  rw [unmoved, List.flatMap_map]
  exact List.flatMap_eq_nil_iff.mpr fun _ _ => rfl

theorem map_unmoved {cs : List OstricClient} {buffer : List Byte}
    (h : ∀ c ∈ cs, c.genericMsg buffer = (c, [])) :
    (cs.map fun c => c.genericMsg buffer) = unmoved cs := List.map_congr_left h

/-- An address is not given to a client without the token. -/
theorem map_sendAddress {cs : List OstricClient} {a : Nat} (ha : a < deviceHighAddress)
    (h : ∀ c ∈ cs, c.address = -1 → c.hasToken = false) :
    (cs.map fun c => c.genericMsg (sendAddress a).bytes) = unmoved cs := by
  apply map_unmoved
  intro c hc
  rw [genericMsg_sendAddress c ha, if_neg]
  intro hx
  rw [h c hc hx.1] at hx
  cases hx.2

/-- A frame for one address leaves the others alone. -/
theorem map_tokAdvance {cs : List OstricClient} {a : Nat} (h2 : 2 ≤ a) (ha : a < deviceHighAddress)
    (h : ∀ c ∈ cs, c.address ≠ BitVec.ofNat 32 a) :
    (cs.map fun c => c.genericMsg (sendTokAdvance a).bytes) = unmoved cs := by
  apply map_unmoved
  intro c hc
  rw [genericMsg_tokAdvance c h2 ha, if_neg (h c hc)]

/-! ## Rounds -/

theorem juggleTokens_append (wire : Bool) (cs ds : List OstricClient) :
    juggleTokens wire (cs ++ ds)
      = ((juggleTokens wire cs).1 ++ (juggleTokens (juggleTokens wire cs).2 ds).1,
        (juggleTokens (juggleTokens wire cs).2 ds).2) := by
  induction cs generalizing wire with
  | nil => rfl
  | cons c cs ih =>
      show (_ :: (juggleTokens _ (cs ++ ds)).1, (juggleTokens _ (cs ++ ds)).2) = _
      rw [ih]
      rfl

/-- Without a token there is nothing to pass on. -/
theorem juggleTokens_idle {cs : List OstricClient} (h : ∀ c ∈ cs, c.hasToken = false) :
    juggleTokens false cs = (cs, false) := by
  induction cs with
  | nil => rfl
  | cons c cs ih =>
      have hc := h c List.mem_cons_self
      have hcs := ih fun d hd => h d (List.mem_cons_of_mem _ hd)
      have hone : juggleToken false c = (c, false) := by
        rw [juggleToken, hc, Bool.false_and, if_neg Bool.false_ne_true, ← hc]
      rw [juggleTokens, hone]
      simp only [hcs]

theorem juggleTokens_passed (j : Nat) : juggleTokens false (passed j) = (passed j, false) := by
  apply juggleTokens_idle
  intro c hc
  obtain ⟨i, -, rfl⟩ := mem_passed hc
  rfl

theorem juggleTokens_waiting (m : Nat) : juggleTokens false (waiting m) = (waiting m, false) := by
  apply juggleTokens_idle
  intro c hc
  rw [List.eq_of_mem_replicate hc]
  rfl

/-- The token comes to the first of those that wait. -/
theorem juggleTokens_true (m : Nat) : juggleTokens true (waiting m) = (holding m, decide (m = 0)) := by
  cases m with
  | zero => rfl
  | succ m =>
      show (_ :: (juggleTokens false (waiting m)).1, (juggleTokens false (waiting m)).2) = _
      rw [juggleTokens_waiting]
      rfl

theorem juggleTokens_holding (m : Nat) : juggleTokens false (holding m) = (holding m, false) := by
  cases m with
  | zero => rfl
  | succ m =>
      show (_ :: (juggleTokens false (waiting m)).1, (juggleTokens false (waiting m)).2) = _
      rw [juggleTokens_waiting]
      rfl

end OstricClient

/-! ## The bus -/

namespace OstricBus

open OstricClient

/-- Before there is a token. -/
def quiet (n : Nat) (gwKeepToken keepToken : Bool) : OstricBus :=
  ⟨false, false, gwKeepToken, List.replicate n (unaddressed false keepToken)⟩

/-- The token has passed `j` clients, and stands still before the other
`m`. -/
def ring (gwKeepToken : Bool) (j m : Nat) : OstricBus :=
  ⟨false, decide (m = 0), gwKeepToken, passed j ++ holding m⟩

/-- The client that the token has come to has taken an address, and then
does or does not keep the token. -/
def taken (keepToken : Bool) (j m : Nat) : OstricBus :=
  ⟨false, false, true, passed j ++ addressed (j + 2) true keepToken :: waiting m⟩

/-- A round that the gateway does not sit out. -/
theorem advanceToken_eq {s : OstricBus} {cs : List OstricClient} {wire : Bool}
    (hgw : (s.gwKeepToken && s.gwHasToken) = false)
    (h : juggleTokens s.gwHasToken s.clients = (cs, wire)) :
    s.advanceToken = { s with gwHasToken := wire, clients := cs } := by
  rw [advanceToken, hgw, if_neg Bool.false_ne_true]
  simp only [h]

/-- A round in which nothing moves. -/
theorem advanceToken_still {s : OstricBus} (hgw : s.gwHasToken = false)
    (h : juggleTokens false s.clients = (s.clients, false)) : s.advanceToken = s := by
  rw [← hgw] at h
  rw [advanceToken_eq (by rw [hgw, Bool.and_false]) h]

theorem advance_quiet (n : Nat) (g k : Bool) : (quiet n g k).advanceToken = quiet n g k := by
  apply advanceToken_still rfl
  apply juggleTokens_idle
  intro c hc
  rw [List.eq_of_mem_replicate hc]
  rfl

theorem advance_ring (j m : Nat) : (ring true j m).advanceToken = ring true j m := by
  cases m with
  | zero => rfl
  | succ m =>
      apply advanceToken_still rfl
      show juggleTokens false (passed j ++ holding (m + 1)) = _
      rw [juggleTokens_append, juggleTokens_passed, juggleTokens_holding]
      rfl

theorem advance_ring_zero (m : Nat) : (ring false 0 m).advanceToken = ring false 0 m := by
  cases m with
  | zero => rfl
  | succ m =>
      apply advanceToken_still rfl
      exact juggleTokens_holding (m + 1)

theorem advance_taken (j m : Nat) : (taken true j m).advanceToken = taken true j m := by
  apply advanceToken_still rfl
  show juggleTokens false (passed j ++ _ :: waiting m) = _
  rw [juggleTokens_append, juggleTokens_passed]
  show (_ ++ _ :: (juggleTokens false (waiting m)).1, (juggleTokens false (waiting m)).2) = _
  rw [juggleTokens_waiting]
  rfl

/-- **The token is released**: it moves on to the next client, or to the
gateway. -/
theorem advance_released (j m : Nat) : (taken false j m).advanceToken = ring true (j + 1) m := by
  have hround : juggleTokens false (passed j ++ addressed (j + 2) true false :: waiting m)
      = (passed (j + 1) ++ holding m, decide (m = 0)) := by
    rw [juggleTokens_append, juggleTokens_passed]
    show (_ ++ _ :: (juggleTokens true (waiting m)).1, (juggleTokens true (waiting m)).2) = _
    rw [juggleTokens_true, passed_succ, List.append_assoc]
    rfl
  exact advanceToken_eq rfl hround

/-- **A new token** comes to the first client. -/
theorem advance_generated (n : Nat) :
    OstricBus.advanceToken ⟨false, true, false, waiting n⟩ = ring false 0 n :=
  advanceToken_eq rfl (juggleTokens_true n)

/-! ### Commands -/

section
variable (s : OstricBus)

theorem hear_haveToken : s.hear gwCmdHaveToken
    = (s, [emitDataAck 1 1 [if s.gwHasToken then 1 else 0]]) := rfl

end

theorem busCommand_eq {s : OstricBus} {buffer : List Byte}
    {rs : List (OstricClient × List (List Byte))}
    (h : (s.clients.map fun c => c.genericMsg buffer) = rs) :
    s.busCommand buffer = ({ s with clients := rs.map Prod.fst }, rs.flatMap Prod.snd) := by
  rw [busCommand]
  simp only [h]

/-- **A reset**: no client has a token, and all keep the next one. -/
theorem hear_reset (n : Nat) (g k : Bool) : (quiet n g k).hear sendReset = (quiet n g true, []) := by
  have hmap : ((quiet n g k).clients.map fun c => c.genericMsg sendReset.bytes)
      = unmoved (List.replicate n (unaddressed false true)) := by
    show (List.replicate n _).map _ = _
    rw [List.map_replicate, genericMsg_reset, unmoved, List.map_replicate]
  have hbus := busCommand_eq hmap
  rw [unmoved_fst, unmoved_snd] at hbus
  exact hbus

/-- All clients ack the broadcast that flushes the token. -/
theorem hear_tokAdvance_all (n : Nat) (g k : Bool) : (quiet n g k).hear (sendTokAdvance 0)
    = (quiet n g false, List.replicate n (emitAck 0xFF 1)) := by
  have hmap : ((quiet n g k).clients.map fun c => c.genericMsg (sendTokAdvance 0).bytes)
      = List.replicate n (unaddressed false false, [emitAck 0xFF 1]) := by
    have hsrc : ((-1 : BitVec 32).truncate 8 : Byte) = 0xFF := by decide
    show (List.replicate n _).map _ = _
    rw [List.map_replicate, genericMsg_tokAdvance_all, ← hsrc]
    rfl
  have hbus := busCommand_eq hmap
  have hout : (List.replicate n (unaddressed false false, [emitAck 0xFF 1])).flatMap Prod.snd
      = List.replicate n (emitAck 0xFF 1) := by
    rw [List.flatMap_replicate]
    exact List.flatten_replicate_singleton
  rw [List.map_replicate, hout] at hbus
  exact hbus

/-- **The client that holds the token** takes the address. -/
theorem hear_sendAddress {j m : Nat} (ha : j + 2 < deviceHighAddress) :
    (ring true j (m + 1)).hear (sendAddress (j + 2))
      = (taken true j m, [emitAck (BitVec.ofNat 8 (j + 2)) 1]) := by
  have hpassed : ∀ c ∈ passed j, c.address = -1 → c.hasToken = false := by
    intro c hc _
    obtain ⟨i, -, rfl⟩ := mem_passed hc
    rfl
  have hwaiting : ∀ c ∈ waiting m, c.address = -1 → c.hasToken = false := by
    intro c hc _
    rw [List.eq_of_mem_replicate hc]
    rfl
  have hmap : ((ring true j (m + 1)).clients.map fun c => c.genericMsg (sendAddress (j + 2)).bytes)
      = unmoved (passed j)
        ++ (addressed (j + 2) true true, [emitAck (BitVec.ofNat 8 (j + 2)) 1]) :: unmoved (waiting m) := by
    show (passed j ++ unaddressed true true :: waiting m).map _ = _
    rw [List.map_append, List.map_cons, map_sendAddress ha hpassed, map_sendAddress ha hwaiting,
      genericMsg_sendAddress _ ha, if_pos ⟨rfl, rfl⟩]
    rfl
  have hbus := busCommand_eq hmap
  rw [List.map_append, List.map_cons, unmoved_fst, unmoved_fst, List.flatMap_append,
    List.flatMap_cons, unmoved_snd, unmoved_snd] at hbus
  exact hbus

/-- **The gateway does not**: nobody acks an address while it holds the
token. -/
theorem hear_sendAddress_gateway {j a : Nat} (ha : a < deviceHighAddress) :
    (ring true j 0).hear (sendAddress a) = (ring true j 0, []) := by
  have hpassed : ∀ c ∈ (ring true j 0).clients, c.address = -1 → c.hasToken = false := by
    intro c hc _
    have hc : c ∈ passed j ++ [] := hc
    rw [List.append_nil] at hc
    obtain ⟨i, -, rfl⟩ := mem_passed hc
    rfl
  have hbus := busCommand_eq (map_sendAddress ha hpassed)
  rw [unmoved_fst, unmoved_snd] at hbus
  exact hbus

/-- **It lets go of the token** when it is told to. -/
theorem hear_tokAdvance {j m : Nat} (ha : j + 2 < deviceHighAddress) :
    (taken true j m).hear (sendTokAdvance (j + 2))
      = (taken false j m, [emitAck (BitVec.ofNat 8 (j + 2)) 1]) := by
  have h2 : 2 ≤ j + 2 := Nat.le_add_left 2 j
  have hpassed : ∀ c ∈ passed j, c.address ≠ BitVec.ofNat 32 (j + 2) := by
    intro c hc haddr
    obtain ⟨i, hi, rfl⟩ := mem_passed hc
    have := address_inj (by omega) ha haddr
    omega
  have hwaiting : ∀ c ∈ waiting m, c.address ≠ BitVec.ofNat 32 (j + 2) := by
    intro c hc haddr
    rw [List.eq_of_mem_replicate hc] at haddr
    exact address_ne ha haddr.symm
  have hmap : ((taken true j m).clients.map fun c => c.genericMsg (sendTokAdvance (j + 2)).bytes)
      = unmoved (passed j)
        ++ (addressed (j + 2) true false, [emitAck (BitVec.ofNat 8 (j + 2)) 1])
          :: unmoved (waiting m) := by
    show (passed j ++ addressed (j + 2) true true :: waiting m).map _ = _
    rw [List.map_append, List.map_cons, map_tokAdvance h2 ha hpassed, map_tokAdvance h2 ha hwaiting,
      genericMsg_tokAdvance _ h2 ha]
    exact congrArg (fun r => _ ++ r :: _) (if_pos rfl)
  have hbus := busCommand_eq hmap
  rw [List.map_append, List.map_cons, unmoved_fst, unmoved_fst, List.flatMap_append,
    List.flatMap_cons, unmoved_snd, unmoved_snd] at hbus
  exact hbus

/-! ### Where the token is, and who has which address -/

/-- The addresses from 2 on, in order, and then clients that have none. -/
def addressedUpTo (j m : Nat) : List (BitVec 32) :=
  ((List.range j).map fun i => BitVec.ofNat 32 (i + 2)) ++ List.replicate m (-1)

theorem addresses_passed (j : Nat) :
    (passed j).map OstricClient.address = (List.range j).map fun i => BitVec.ofNat 32 (i + 2) := by
  rw [passed, List.map_map]
  rfl

theorem addresses_waiting (m : Nat) :
    (waiting m).map OstricClient.address = List.replicate m (-1) := by
  rw [waiting, List.map_replicate]
  rfl

theorem addresses_quiet (n : Nat) (g k : Bool) :
    (quiet n g k).clients.map OstricClient.address = addressedUpTo 0 n := by
  show (List.replicate n _).map _ = _
  rw [List.map_replicate]
  rfl

theorem addresses_ring (g : Bool) (j m : Nat) :
    (ring g j m).clients.map OstricClient.address = addressedUpTo j m := by
  show (passed j ++ holding m).map _ = _
  rw [List.map_append, addresses_passed]
  cases m with
  | zero => rfl
  | succ m =>
      show _ ++ -1 :: (waiting m).map _ = _
      rw [addresses_waiting]
      rfl

theorem addresses_taken (k : Bool) (j m : Nat) :
    (taken k j m).clients.map OstricClient.address = addressedUpTo (j + 1) m := by
  show (passed j ++ _ :: waiting m).map _ = _
  rw [List.map_append, List.map_cons, addresses_passed, addresses_waiting, addressedUpTo,
    List.range_succ, List.map_append, List.append_assoc]
  rfl

theorem hasAt_succ {s : OstricBus} {i : Nat} (h : s.hasAt (i + 1) = true) :
    ∃ c, s.clients[i]? = some c ∧ c.hasToken = true := by
  rw [hasAt] at h
  cases hc : s.clients[i]? with
  | none => rw [hc] at h; cases h
  | some c => rw [hc] at h; exact ⟨c, rfl, h⟩

/-- Neither those in front of a client nor those behind it have the
token. -/
theorem hasToken_between {j m i : Nat} {c d : OstricClient}
    (hd : (passed j ++ c :: waiting m)[i]? = some d) (htok : d.hasToken = true) : i = j := by
  have hlen : (passed j).length = j := by
    rw [passed, List.length_map, List.length_range]
  rcases Nat.lt_trichotomy i j with hlt | heq | hgt
  · rw [List.getElem?_append_left (by omega)] at hd
    obtain ⟨k, -, rfl⟩ := mem_passed (List.mem_of_getElem? hd)
    cases htok
  · exact heq
  · obtain ⟨k, rfl⟩ := Nat.exists_eq_add_of_lt hgt
    rw [List.getElem?_append_right (by omega), hlen, show j + k + 1 - j = k + 1 by omega,
      List.getElem?_cons_succ] at hd
    rw [List.eq_of_mem_replicate (List.mem_of_getElem? hd)] at htok
    cases htok

theorem tokens_quiet (n : Nat) (g k : Bool) : (quiet n g k).tokens ≤ 1 := by
  rw [tokens, Finset.card_le_one]
  intro a ha b
  obtain ⟨-, hhas⟩ := mem_holders.mp ha
  cases a with
  | zero => cases hhas
  | succ a =>
      obtain ⟨c, hc, htok⟩ := hasAt_succ hhas
      rw [List.eq_of_mem_replicate (List.mem_of_getElem? hc)] at htok
      cases htok

/-- One client has the token, and the gateway does not. -/
theorem tokens_between {s : OstricBus} {j m : Nat} {c : OstricClient} (hgw : s.gwHasToken = false)
    (hcs : s.clients = passed j ++ c :: waiting m) : s.tokens ≤ 1 := by
  have hplace : ∀ i ∈ s.holders, i = j + 1 := by
    intro i hi
    obtain ⟨-, hhas⟩ := mem_holders.mp hi
    cases i with
    | zero => cases hgw.symm.trans hhas
    | succ i =>
        obtain ⟨d, hd, htok⟩ := hasAt_succ hhas
        rw [hcs] at hd
        rw [hasToken_between hd htok]
  rw [tokens, Finset.card_le_one]
  intro a ha b hb
  rw [hplace a ha, hplace b hb]

theorem tokens_ring (g : Bool) (j m : Nat) : (ring g j m).tokens ≤ 1 := by
  cases m with
  | succ m => exact tokens_between rfl rfl
  | zero =>
      -- the gateway has it
      have hplace : ∀ i ∈ (ring g j 0).holders, i = 0 := by
        intro i hi
        obtain ⟨-, hhas⟩ := mem_holders.mp hi
        cases i with
        | zero => rfl
        | succ i =>
            obtain ⟨c, hc, htok⟩ := hasAt_succ hhas
            have hc : (passed j ++ [])[i]? = some c := hc
            rw [List.append_nil] at hc
            obtain ⟨k, -, rfl⟩ := mem_passed (List.mem_of_getElem? hc)
            cases htok
      rw [tokens, Finset.card_le_one]
      intro a ha b hb
      rw [hplace a ha, hplace b hb]

theorem tokens_taken (k : Bool) (j m : Nat) : (taken k j m).tokens ≤ 1 := tokens_between rfl rfl

end OstricBus

end Sricd
