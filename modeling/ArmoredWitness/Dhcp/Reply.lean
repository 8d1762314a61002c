import ArmoredWitness.Dhcp.Packet

/-! What `recv` does with a datagram it has read: it is refused with an error, ignored
because it belongs to another transaction, or taken apart. -/
namespace ArmoredWitness.Dhcp
open Lib Lib.Tlv Lib.Window

/-- `tcpip.AddrFromSlice`: an address has 4 or 16 bytes; anything else gives the empty one. -/
def addrFromSlice (bs : List UInt8) : List UInt8 := if bs.length = 4 ∨ bs.length = 16 then bs else []

/-- What `recv` returns of a packet. -/
structure Reply where
  addr : List UInt8
  opts : List Field
  typ : MsgType
  deriving DecidableEq

inductive RecvError
  /-- An error of the endpoint. -/
  | read
  /-- The context is done. -/
  | canceled
  | invalidHdr (h : Hdr)
  | opCode (h : Hdr)
  | invalidOptions (e : OptionsError)
  | invalidType (e : MsgTypeError)
  deriving DecidableEq

/-- The part of `recv` behind the read; nothing is returned for a message to another
client. -/
def parse (xid : List.Vector UInt8 4) (h : Hdr) : Outcome RecvError (Option Reply) :=
  (Hdr.isValid h).bind fun valid =>
  if valid = false then .error (.invalidHdr h)
  else (Hdr.op h).bind fun o =>
  if o ≠ opReply then .error (.opCode h)
  else (Hdr.xidbytes h).bind fun x =>
  if x ≠ xid.toList then .ok none
  else ((options h).mapError .invalidOptions).bind fun opts =>
  match dhcpMsgType opts with
  | .error e => .error (.invalidType e)
  | .ok typ => (Hdr.yiaddr h).map fun y => some ⟨addrFromSlice y,opts,typ⟩

/-- The packets that come from a server. -/
structure IsReply (h : Hdr) : Prop where
  length : dhcpMinimumSize ≤ h.length
  op : h[0]? = some opReply
  hardware : Window.read h 1 2 = [0x1,0x6]
  cookie : Window.read h 236 4 = magicCookie

section Parse
variable {h : Hdr} {xid : List.Vector UInt8 4}

/-- The headers that are valid. -/
def ValidHdr (h : Hdr) : Prop :=
  (h[0]? = some opRequest ∨ h[0]? = some opReply) ∧ Window.read h 1 2 = [0x1,0x6] ∧ Window.read h 236 4 = magicCookie

instance (h : Hdr) : Decidable (ValidHdr h) := inferInstanceAs (Decidable (_ ∧ _))

section Long
variable {ε : Type} (hl : dhcpMinimumSize ≤ h.length)
include hl

lemma slice_of_length (i : ℕ) {j : ℕ} (hj : j ≤ 240) :
    (slice h i j : Outcome ε (List UInt8)) = .ok (Window.read h i (j-i)) := by
  rw [dhcpMinimumSize] at hl
  exact slice_of_le (by omega)

lemma op_of_length : ∃ o, h[0]? = some o ∧ (Hdr.op h : Outcome ε UInt8) = .ok o := by
  rw [dhcpMinimumSize] at hl
  have h0 : 0 < h.length := by omega
  exact ⟨h[0],List.getElem?_eq_getElem h0,index_of_lt h0⟩

lemma isValid_of_length : (Hdr.isValid h : Outcome ε Bool) = .ok (decide (ValidHdr h)) := by
  obtain ⟨o,ho,hop⟩ := op_of_length (ε := ε) hl
  rw [Hdr.isValid,if_neg (not_lt.mpr hl),hop,Outcome.bind_ok,slice_of_length hl 1 (by decide),Outcome.bind_ok,
    slice_of_length hl 236 (by decide),Outcome.map_ok]
  simp only [ValidHdr,ho,Option.some.injEq]
  split_ifs with hne hw
  · simp [hne]
  · simp [hw]
  · rw [Outcome.ok.injEq,Bool.eq_iff_iff]
    simp only [beq_iff_eq,decide_eq_true_eq]
    tauto

/-- A packet that is long enough is parsed without leaving its bytes. -/
lemma parse_of_length : parse xid h =
    if ¬ ValidHdr h then .error (.invalidHdr h)
    else if h[0]? ≠ some opReply then .error (.opCode h)
    else if Window.read h 4 4 ≠ xid.toList then .ok none
    else ((options h).mapError .invalidOptions).bind fun opts =>
    match dhcpMsgType opts with
    | .error e => .error (.invalidType e)
    | .ok typ => .ok (some ⟨Window.read h 16 4,opts,typ⟩) := by
  obtain ⟨o,ho,hop⟩ := op_of_length (ε := RecvError) hl
  have haddr : addrFromSlice (Window.read h 16 4) = Window.read h 16 4 := by
    rw [dhcpMinimumSize] at hl
    rw [addrFromSlice,if_pos]
    simp
    omega
  rw [parse,isValid_of_length hl,Outcome.bind_ok,hop,Outcome.bind_ok,Hdr.xidbytes,slice_of_length hl 4 (by decide),
    Outcome.bind_ok,Hdr.yiaddr,slice_of_length hl 16 (by decide),ho]
  simp only [Outcome.map_ok,Nat.reduceSub,haddr,Option.some.injEq,decide_eq_false_iff_not,ne_eq]

end Long

lemma parse_of_short (hl : h.length < dhcpMinimumSize) : parse xid h = .error (.invalidHdr h) := by
  rw [parse,Hdr.isValid,if_pos hl]
  rfl

/-- No datagram makes the client panic. -/
theorem parse_ne_panic (xid : List.Vector UInt8 4) (h : Hdr) (p : Panic) : parse xid h ≠ .panic p := by
  by_cases hl : dhcpMinimumSize ≤ h.length
  · rw [parse_of_length hl]
    split
    · simp
    · split
      · simp
      · split
        · simp
        · cases ho : options h with
          | ok opts =>
            rw [Outcome.mapError_ok,Outcome.bind_ok]
            split <;> simp
          | error e => simp
          | panic q => exact absurd ho (options_ne_panic h q)
  · rw [parse_of_short (by omega)]
    simp

lemma IsReply.valid (hr : IsReply h) : ValidHdr h := ⟨.inr hr.op,hr.hardware,hr.cookie⟩

/-- What happens to a reply. -/
lemma IsReply.parse_eq (hr : IsReply h) : parse xid h =
    if Window.read h 4 4 ≠ xid.toList then .ok none
    else ((options h).mapError .invalidOptions).bind fun opts =>
    match dhcpMsgType opts with
    | .error e => .error (.invalidType e)
    | .ok typ => .ok (some ⟨Window.read h 16 4,opts,typ⟩) := by
  rw [parse_of_length hr.length,if_neg (not_not.mpr hr.valid),if_neg (not_not.mpr hr.op)]

/-- Everything else is refused. -/
lemma isReply_of_parse {r : Option Reply} (hp : parse xid h = .ok r) : IsReply h := by
  by_cases hl : dhcpMinimumSize ≤ h.length
  · rw [parse_of_length hl] at hp
    split at hp
    · cases hp
    · rename_i hvalid
      rw [not_not] at hvalid
      split at hp
      · cases hp
      · rename_i hop
        exact ⟨hl,not_not.mp hop,hvalid.2.1,hvalid.2.2⟩
  · rw [parse_of_short (by omega)] at hp
    cases hp

/-- The packets that are ignored are the replies of other transactions. -/
theorem parse_eq_none_iff : parse xid h = .ok none ↔ IsReply h ∧ Window.read h 4 4 ≠ xid.toList := by
  constructor
  · intro hp
    have hr := isReply_of_parse hp
    refine ⟨hr,?_⟩
    intro hx
    rw [hr.parse_eq,if_neg (not_not.mpr hx)] at hp
    obtain ⟨opts,-,hopts⟩ := Outcome.bind_eq_ok.mp hp
    split at hopts <;> cases hopts
  · rintro ⟨hr,hx⟩
    rw [hr.parse_eq,if_pos hx]

/-- The packets that are taken apart are the replies of this transaction whose options
are well formed and name a type, if they name one. -/
theorem parse_eq_some_iff {r : Reply} : parse xid h = .ok (some r) ↔
    IsReply h ∧ Window.read h 4 4 = xid.toList ∧ Stream framing (h.drop headerBaseSize) r.opts ∧
      dhcpMsgType r.opts = .ok r.typ ∧ r.addr = Window.read h 16 4 := by
  have hbase (hr : IsReply h) : headerBaseSize ≤ h.length := (Nat.le_succ _).trans hr.length
  constructor
  · intro hp
    have hr := isReply_of_parse hp
    rw [hr.parse_eq] at hp
    split_ifs at hp with hx
    · cases hp
    obtain ⟨opts,hopts,htyp⟩ := Outcome.bind_eq_ok.mp hp
    have hs := (options_eq_ok_iff (hbase hr)).mp (Outcome.mapError_eq_ok.mp hopts)
    split at htyp
    · cases htyp
    · rename_i typ ht
      cases htyp
      exact ⟨hr,not_not.mp hx,hs,ht,rfl⟩
  · rintro ⟨hr,hx,hs,ht,haddr⟩
    have hopts := (options_eq_ok_iff (hbase hr)).mpr hs
    rw [hr.parse_eq,if_neg (not_not.mpr hx),hopts,Outcome.mapError_ok,Outcome.bind_ok,ht]
    dsimp only
    rw [← haddr]

/-- The header of a reply. -/
def Header.reply (xid yiaddr : List.Vector UInt8 4) : Header :=
  {Header.zero with op := opReply, htype := 1, hlen := 6, xid := xid, yiaddr := yiaddr, cookie := Header.magic}

lemma Header.isReply (xid yiaddr : List.Vector UInt8 4) {t : List UInt8} (ht : t ≠ []) :
    IsReply ((Header.reply xid yiaddr).on t) where
  length := by
    rw [Header.on_length]
    exact Nat.add_le_add_left (List.length_pos_iff.mpr ht) _
  op := rfl
  hardware := rfl
  cookie := (Header.reply xid yiaddr).read_cookie t

lemma Header.parse_reply (xid yiaddr : List.Vector UInt8 4) {t : List UInt8} {opts : List Field} {typ : MsgType}
    (ht : t ≠ []) (hs : Stream framing t opts) (htyp : dhcpMsgType opts = .ok typ) :
    parse xid ((Header.reply xid yiaddr).on t) = .ok (some ⟨yiaddr.toList,opts,typ⟩) := by
  rw [parse_eq_some_iff]
  refine ⟨Header.isReply xid yiaddr ht,(Header.reply xid yiaddr).read_xid t,?_,htyp,
    ((Header.reply xid yiaddr).read_yiaddr t).symm⟩
  rw [Header.on_drop]
  exact hs

end Parse

end ArmoredWitness.Dhcp
