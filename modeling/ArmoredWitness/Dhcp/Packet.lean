import ArmoredWitness.Lib.Loop
import ArmoredWitness.Lib.Tlv
import ArmoredWitness.Lib.Window
import Mathlib.Algebra.Ring.Nat
import Mathlib.Data.Vector.Basic
import Mathlib.Tactic.TFAE

/-! A packet is a header of 240 bytes, which ends with a cookie, and a stream of options.
The client builds requests and takes replies apart; every access to the bytes of a packet is
an index or a slice of Go, which panics when it is out of range. -/
namespace ArmoredWitness.Dhcp
open Lib Lib.Tlv Lib.Window

/-- The size of a packet up to the options, including the cookie. -/
def headerBaseSize : ℕ := 240

def dhcpMinimumSize : ℕ := 241

def magicCookie : List UInt8 := [99,130,83,99]

def opRequest : UInt8 := 1
def opReply : UInt8 := 2

def optSubnetMask : UInt8 := 1
def optRouter : UInt8 := 3
def optDomainNameServer : UInt8 := 6
def optHostname : UInt8 := 12
def optDomainName : UInt8 := 15
def optReqIPAddr : UInt8 := 50
def optLeaseTime : UInt8 := 51
def optDHCPMsgType : UInt8 := 53
def optDHCPServer : UInt8 := 54
def optParamReq : UInt8 := 55
def optMessage : UInt8 := 56
def optRenewalTime : UInt8 := 58
def optRebindingTime : UInt8 := 59
def optClientID : UInt8 := 61

/-- The pad and the end option. -/
def framing : Framing := ⟨0,255⟩

lemma carries_of {code : UInt8} {body : List UInt8} (hcode : code ≠ 0 ∧ code ≠ 255) (hlen : body.length < 256) :
    framing.Carries ⟨code,body⟩ := ⟨hcode.1,hcode.2,hlen⟩

/-- The lengths an option may have. -/
def lenValid (code : UInt8) (l : ℕ) : Bool :=
  if code = optSubnetMask ∨ code = optReqIPAddr ∨ code = optLeaseTime ∨ code = optDHCPServer ∨
      code = optRenewalTime ∨ code = optRebindingTime then l = 4
  else if code = optDHCPMsgType then l = 1
  else if code = optRouter ∨ code = optDomainNameServer then l % 4 = 0
  else if code = optMessage ∨ code = optDomainName ∨ code = optClientID ∨ code = optHostname then 1 ≤ l
  else true

/-- The message types; `none` is the zero value, which stands for a packet that does not
say. -/
inductive MsgType
  | none
  | discover
  | offer
  | request
  | decline
  | ack
  | nak
  | release
  deriving DecidableEq

namespace MsgType

def toByte : MsgType → UInt8
  | .none => 0
  | .discover => 1
  | .offer => 2
  | .request => 3
  | .decline => 4
  | .ack => 5
  | .nak => 6
  | .release => 7

def ofByte (v : UInt8) : MsgType :=
  if v = 1 then .discover else if v = 2 then .offer else if v = 3 then .request
  else if v = 4 then .decline else if v = 5 then .ack else if v = 6 then .nak
  else if v = 7 then .release else .none

end MsgType

inductive MsgTypeError
  | badLength (code : UInt8) (len : ℕ)
  | badValue (len : ℕ)
  deriving DecidableEq

/-- The type of the message: the first option that gives one decides. -/
def dhcpMsgType : List Field → Except MsgTypeError MsgType
  | [] => .ok .none
  | opt::opts =>
    if opt.code = optDHCPMsgType then
      match opt.body with
      | [v] => if v ≤ 0 ∨ 8 ≤ v then .error (.badValue 1) else .ok (.ofByte v)
      | body => .error (.badLength opt.code body.length)
    else dhcpMsgType opts

/-- The text a server sends along. -/
def message : List Field → List UInt8
  | [] => []
  | opt::opts => if opt.code = optMessage then opt.body else message opts

/-- The bytes the options need, and one for a pad. -/
def optsLen (opts : List Field) : ℕ := (opts.map fun opt => 1+1+opt.body.length).sum+1

abbrev Hdr := List UInt8

namespace Hdr
variable {ε : Type}

def init (h : Hdr) : Outcome ε Hdr :=
  (put h 1 0x01).bind fun h => (put h 2 0x06).bind fun h => (put h 3 0x00).bind fun h =>
  (put h 8 0).bind fun h => (put h 9 0).bind fun h => copy h 236 240 magicCookie

def op (h : Hdr) : Outcome ε UInt8 := index h 0

def setOp (h : Hdr) (o : UInt8) : Outcome ε Hdr := put h 0 o

def xidbytes (h : Hdr) : Outcome ε (List UInt8) := slice h 4 8

def setBroadcast (h : Hdr) : Outcome ε Hdr := (index h 10).bind fun v => put h 10 (v ||| ((1 : UInt8) <<< 7))

def ciaddr (h : Hdr) : Outcome ε (List UInt8) := slice h 12 16

def yiaddr (h : Hdr) : Outcome ε (List UInt8) := slice h 16 20

def chaddr (h : Hdr) : Outcome ε (List UInt8) := slice h 28 44

def isValid (h : Hdr) : Outcome ε Bool :=
  if h.length < dhcpMinimumSize then .ok false
  else (op h).bind fun o =>
    if o ≠ opRequest ∧ o ≠ opReply then .ok false
    else (slice h 1 3).bind fun b =>
      if b ≠ [0x1,0x6] then .ok false
      else (slice h 236 240).map fun c => c == magicCookie

end Hdr

inductive OptionsError
  | missingLength (code : UInt8) (i : ℕ)
  | tooLong (code : UInt8) (i optlen : ℕ)
  deriving DecidableEq

/-- The variables of the loop that reads the options. -/
structure OptionsScan where
  i : ℕ
  opts : List Field

def optionsBody (h : Hdr) (s : OptionsScan) : Turn OptionsScan (Outcome OptionsError (List Field)) :=
  if s.i < h.length then
    match index h s.i with
    | .ok code =>
      if code = 0 then .again {s with i := s.i+1}
      else if code = 255 then .leave (.ok s.opts)
      else if h.length < s.i+1+1 then .leave (.error (.missingLength code (s.i+1)))
      else match index h (s.i+1) with
        | .ok l =>
          if h.length < s.i+2+l.toNat then .leave (.error (.tooLong code (s.i+2) l.toNat))
          else .again ⟨s.i+2+l.toNat,s.opts ++ [⟨code,read h (s.i+2) l.toNat⟩]⟩
        | .error e => .leave (.error e)
        | .panic p => .leave (.panic p)
    | .error e => .leave (.error e)
    | .panic p => .leave (.panic p)
  else .leave (.ok s.opts)

section Rounds
variable (a r : List UInt8) (opts : List Field)


lemma optionsBody_nil : optionsBody a ⟨a.length,opts⟩ = .leave (.ok opts) := by
  simp [optionsBody]

lemma optionsBody_pad : optionsBody (a ++ (0::r)) ⟨a.length,opts⟩ = .again ⟨a.length+1,opts⟩ := by
  simp [optionsBody,index_middle]

lemma optionsBody_stop : optionsBody (a ++ (255::r)) ⟨a.length,opts⟩ = .leave (.ok opts) := by
  simp [optionsBody,index_middle]

variable {c : UInt8} (h0 : c ≠ 0) (h255 : c ≠ 255)
include h0 h255

lemma optionsBody_short : optionsBody (a ++ [c]) ⟨a.length,opts⟩ =
    .leave (.error (.missingLength c (a.length+1))) := by
  simp [optionsBody,index_middle,h0,h255]

lemma optionsBody_field (l : UInt8) : optionsBody (a ++ (c::l::r)) ⟨a.length,opts⟩ =
    if r.length < l.toNat then .leave (.error (.tooLong c (a.length+2) l.toNat))
    else .again ⟨a.length+2+l.toNat,opts ++ [⟨c,r.take l.toNat⟩]⟩ := by
  have hl : (index (a ++ (c::l::r)) (a.length+1) : Outcome OptionsError UInt8) = .ok l := by
    have h := index_middle (ε := OptionsError) (a ++ [c]) r l
    simpa using h
  have hread : read (a ++ (c::l::r)) (a.length+2) l.toNat = r.take l.toNat := by
    rw [Window.read,← List.drop_drop,List.drop_left]
    rfl
  have hlen : (a ++ (c::l::r)).length < a.length+2+l.toNat ↔ r.length < l.toNat := by
    simp only [List.length_append,List.length_cons]
    omega
  unfold optionsBody
  dsimp only
  rw [if_pos (by simp),index_middle]
  dsimp only
  have hnext : ¬ (a ++ (c::l::r)).length < a.length+1+1 := by
    simp only [List.length_append,List.length_cons]
    omega
  rw [if_neg h0,if_neg h255,if_neg hnext,hl]
  dsimp only
  simp only [hlen,hread]

end Rounds

def optionsLoop (h : Hdr) : Loop OptionsScan (Outcome OptionsError (List Field)) where
  body := optionsBody h
  measure s := h.length-s.i
  decreases := by
    intro s t hb
    unfold optionsBody at hb
    split at hb
    · split at hb
      · split_ifs at hb
        · cases hb
          dsimp only
          omega
        · split at hb
          · split_ifs at hb
            cases hb
            dsimp only
            omega
          · cases hb
          · cases hb
      · cases hb
      · cases hb
    · cases hb

/-- The options of a packet. -/
def options (h : Hdr) : Outcome OptionsError (List Field) := (optionsLoop h).exec ⟨headerBaseSize,[]⟩

section Grammar

lemma options_of_stream {b : List UInt8} {xs : List Field} (h : Stream framing b xs) (a : List UInt8)
    (opts : List Field) : (optionsLoop (a ++ b)).exec ⟨a.length,opts⟩ = .ok (opts ++ xs) := by
  induction h generalizing a opts with
  | nil =>
    rw [List.append_nil,List.append_nil]
    exact Loop.exec_leave _ (optionsBody_nil a opts)
  | @pad r xs _ ih =>
    rw [Loop.exec_again _ (optionsBody_pad a r opts)]
    have h := ih (a ++ [0]) opts
    rw [List.append_assoc,List.length_append] at h
    exact h
  | @stop r =>
    rw [List.append_nil]
    exact Loop.exec_leave _ (optionsBody_stop a r opts)
  | @field x r xs hx _ ih =>
    have hl : (UInt8.ofNat x.body.length).toNat = x.body.length := by
      simpa using Nat.mod_eq_of_lt hx.length
    have hbody := optionsBody_field a (x.body ++ r) opts hx.pad hx.stop (UInt8.ofNat x.body.length)
    rw [hl,if_neg (by simp),List.take_left] at hbody
    rw [Loop.exec_again (optionsLoop (a ++ (x.bytes ++ r))) hbody]
    have h := ih (a ++ x.bytes) (opts ++ [x])
    rw [List.length_append,Field.bytes_length,List.append_assoc,List.append_assoc,← Nat.add_assoc] at h
    exact h

/-- By the length of what is left, along the rounds of the loop. -/
lemma stream_of_options {b : List UInt8} {ys : List Field} {a : List UInt8} {opts : List Field}
    (h : (optionsLoop (a ++ b)).exec ⟨a.length,opts⟩ = .ok ys) :
    ∃ xs, ys = opts ++ xs ∧ Stream framing b xs := by
  induction hn : b.length using Nat.strongRecOn generalizing a b opts with
  | ind n ih =>
    match b with
    | [] =>
      rw [List.append_nil,Loop.exec_leave _ (optionsBody_nil a opts)] at h
      cases h
      exact ⟨[],by simp,.nil⟩
    | c::r =>
      by_cases h0 : c = 0
      · subst h0
        rw [Loop.exec_again _ (optionsBody_pad a r opts)] at h
        have h' : (optionsLoop ((a ++ [0]) ++ r)).exec ⟨(a ++ [0]).length,opts⟩ = .ok ys := by simpa using h
        obtain ⟨xs,hxs,hs⟩ := ih r.length (by simp at hn; omega) h' rfl
        exact ⟨xs,hxs,.pad hs⟩
      · by_cases h255 : c = 255
        · subst h255
          rw [Loop.exec_leave _ (optionsBody_stop a r opts)] at h
          cases h
          exact ⟨[],by simp,.stop (by decide)⟩
        · match r with
          | [] =>
            rw [Loop.exec_leave _ (optionsBody_short a opts h0 h255)] at h
            cases h
          | l::r =>
            have hbody := optionsBody_field a r opts h0 h255 l
            split_ifs at hbody with hl
            · rw [Loop.exec_leave _ hbody] at h
              cases h
            · rw [Loop.exec_again _ hbody] at h
              have hlen : (r.take l.toNat).length = l.toNat := by simp; omega
              have hx : Field.bytes ⟨c,r.take l.toNat⟩ = c::l::r.take l.toNat := by
                simp only [Field.bytes,hlen,UInt8.ofNat_toNat]
              have hsplit : a ++ (c::l::r) = (a ++ Field.bytes ⟨c,r.take l.toNat⟩) ++ r.drop l.toNat := by
                rw [hx]
                simp
              have hpos : a.length+2+l.toNat = (a ++ Field.bytes ⟨c,r.take l.toNat⟩).length := by
                rw [List.length_append,Field.bytes_length,hlen,Nat.add_assoc]
              rw [hsplit,hpos] at h
              obtain ⟨xs,hxs,hs⟩ := ih (r.drop l.toNat).length (by simp at hn ⊢; omega) h rfl
              refine ⟨⟨c,r.take l.toNat⟩::xs,by simp [hxs],?_⟩
              have hfield := Stream.field (F := framing) (x := ⟨c,r.take l.toNat⟩)
                ⟨h0,h255,by rw [hlen]; exact l.toNat_lt⟩ hs
              rw [hx] at hfield
              simpa using hfield

/-- The options that are read are those of the stream behind the header. -/
theorem options_eq_ok_iff {h : Hdr} (hlen : headerBaseSize ≤ h.length) {xs : List Field} :
    options h = .ok xs ↔ Stream framing (h.drop headerBaseSize) xs := by
  have htake : (h.take headerBaseSize).length = headerBaseSize := by simp [hlen]
  have hsplit : options h = (optionsLoop (h.take headerBaseSize ++ h.drop headerBaseSize)).exec
      ⟨(h.take headerBaseSize).length,[]⟩ := by
    rw [List.take_append_drop,htake,options]
  rw [hsplit]
  constructor
  · intro hok
    obtain ⟨ys,hys,hs⟩ := stream_of_options hok
    rw [hys]
    exact hs
  · intro hs
    exact options_of_stream hs _ []

/-- Reading the options stays within the packet. -/
theorem options_ne_panic (h : Hdr) (p : Panic) : options h ≠ .panic p := by
  apply (optionsLoop h).exec_rule (P := fun _ => True) (Q := fun r => r ≠ .panic p)
    (fun _ _ _ _ => trivial) _ trivial
  intro s r _ hb
  change optionsBody h s = .leave r at hb
  unfold optionsBody at hb
  split at hb
  · rename_i hi
    rw [index_of_lt hi] at hb
    dsimp only at hb
    split_ifs at hb with h0 h255 hlen
    · cases hb
      simp
    · cases hb
      simp
    · rw [index_of_lt (show s.i+1 < h.length by omega)] at hb
      dsimp only at hb
      split_ifs at hb
      cases hb
      simp
  · cases hb
    simp

end Grammar

/-- Write the options from `i` on, then the end option, and zeros up to the end. -/
def setOptionsFrom {ε : Type} : Hdr → ℕ → List Field → Outcome ε Hdr
  | h, i, [] => (put h i 255).map fun h => h.take (i+1) ++ List.replicate (h.length-(i+1)) 0
  | h, i, opt::opts =>
    (put h i opt.code).bind fun h => (put h (i+1) (UInt8.ofNat opt.body.length)).bind fun h =>
    (copy h (i+2) (i+2+opt.body.length) opt.body).bind fun h =>
    setOptionsFrom h (i+2+opt.body.length) opts

def setOptions {ε : Type} (h : Hdr) (opts : List Field) : Outcome ε Hdr :=
  setOptionsFrom h headerBaseSize opts

lemma setOptionsFrom_eq {ε : Type} (a z : List UInt8) (opts : List Field) {k : ℕ}
    (hz : z.length = (bytes opts).length+1+k) :
    (setOptionsFrom (a ++ z) a.length opts : Outcome ε Hdr) =
      .ok (a ++ (bytes opts ++ 255::List.replicate k 0)) := by
  induction opts generalizing a z with
  | nil =>
    cases z with
    | nil =>
      simp at hz
      omega
    | cons x z =>
      rw [setOptionsFrom,put_middle,Outcome.map_ok]
      have htake : (a ++ (255::z)).take (a.length+1) = a ++ [255] := by
        rw [List.take_append,List.take_of_length_le (by omega)]
        simp
      have hlen : (a ++ (255::z)).length-(a.length+1) = k := by
        simp at hz ⊢
        omega
      rw [htake,hlen]
      simp
  | cons opt opts ih =>
    match z with
    | [] =>
      simp at hz
      omega
    | [x] =>
      simp at hz
      omega
    | x::y::z =>
      have hbody : opt.body.length ≤ z.length := by
        simp at hz
        omega
      have hsplit : a ++ (opt.code::UInt8.ofNat opt.body.length::z) =
          (a ++ [opt.code,UInt8.ofNat opt.body.length]) ++ (z.take opt.body.length ++ z.drop opt.body.length) := by
        simp
      have htake : (z.take opt.body.length).length = opt.body.length := by simp [hbody]
      have hpos : a.length+2 = (a ++ [opt.code,UInt8.ofNat opt.body.length]).length := by simp
      have hput : (put (a ++ (opt.code::y::z)) (a.length+1) (UInt8.ofNat opt.body.length) : Outcome ε Hdr) =
          .ok (a ++ (opt.code::UInt8.ofNat opt.body.length::z)) := by
        have h := put_middle (ε := ε) (a ++ [opt.code]) z y (UInt8.ofNat opt.body.length)
        simpa using h
      rw [setOptionsFrom,put_middle,Outcome.bind_ok,hput,Outcome.bind_ok,hsplit,hpos]
      have hcopy := copy_middle (ε := ε) (a ++ [opt.code,UInt8.ofNat opt.body.length])
        (z.take opt.body.length) (z.drop opt.body.length) opt.body
      rw [htake,overlay_of_length htake.symm] at hcopy
      rw [hcopy,Outcome.bind_ok]
      have h := ih (a ++ opt.bytes) (z.drop opt.body.length) (by simp at hz ⊢; omega)
      have hlen : (a ++ opt.bytes).length =
          (a ++ [opt.code,UInt8.ofNat opt.body.length]).length+opt.body.length := by
        simp
        omega
      rw [hlen] at h
      simpa [Field.bytes] using h

/-- `n` bytes of a zeroed field after `bs` has been copied into it. -/
def fit (n : ℕ) (bs : List UInt8) : List.Vector UInt8 n := ⟨overlay (List.replicate n 0) bs,by simp⟩

lemma fit_nil (n : ℕ) : (fit n []).toList = List.replicate n 0 := by
  change overlay (List.replicate n 0) [] = _
  simp [overlay]

lemma fit_over (n : ℕ) (bs : List UInt8) (h : (overlay (fit n []).toList bs).length = n) :
    (⟨overlay (fit n []).toList bs,h⟩ : List.Vector UInt8 n) = fit n bs := by
  apply Subtype.ext
  change overlay (fit n []).toList bs = overlay (List.replicate n 0) bs
  rw [fit_nil]

/-- The fields of a header. -/
structure Header where
  op : UInt8
  htype : UInt8
  hlen : UInt8
  hops : UInt8
  xid : List.Vector UInt8 4
  secs0 : UInt8
  secs1 : UInt8
  flags0 : UInt8
  flags1 : UInt8
  ciaddr : List.Vector UInt8 4
  yiaddr : List.Vector UInt8 4
  siaddr : List.Vector UInt8 4
  giaddr : List.Vector UInt8 4
  chaddr : List.Vector UInt8 16
  sname : List.Vector UInt8 64
  file : List.Vector UInt8 128
  cookie : List.Vector UInt8 4

namespace Header

/-- The bytes before the transaction, before the addresses and before the hardware
address. -/
def front (x : Header) : List UInt8 := [x.op,x.htype,x.hlen,x.hops]

def upTo12 (x : Header) : List UInt8 := x.front ++ (x.xid.toList ++ [x.secs0,x.secs1,x.flags0,x.flags1])

def upTo28 (x : Header) : List UInt8 :=
  x.upTo12 ++ (x.ciaddr.toList ++ (x.yiaddr.toList ++ (x.siaddr.toList ++ x.giaddr.toList)))

def upTo236 (x : Header) : List UInt8 := x.upTo28 ++ (x.chaddr.toList ++ (x.sname.toList ++ x.file.toList))

/-- The header on the wire, in front of `t`. -/
def on (x : Header) (t : List UInt8) : List UInt8 := x.upTo236 ++ (x.cookie.toList ++ t)

/-- A header of zeros. -/
def zero : Header :=
  ⟨0,0,0,0,fit 4 [],0,0,0,0,fit 4 [],fit 4 [],fit 4 [],fit 4 [],fit 16 [],fit 64 [],fit 128 [],fit 4 []⟩

section Bytes
variable (x : Header) (t : List UInt8)

@[simp] lemma upTo12_length : x.upTo12.length = 12 := by
  simp [upTo12,front]

@[simp] lemma upTo28_length : x.upTo28.length = 28 := by
  simp [upTo28]

@[simp] lemma upTo236_length : x.upTo236.length = 236 := by
  simp [upTo236]

lemma on_length : (x.on t).length = headerBaseSize+t.length := by
  simp only [on,List.length_append,upTo236_length,List.Vector.toList_length,headerBaseSize]
  omega

lemma on_drop : (x.on t).drop headerBaseSize = t := by
  have hlen : (x.upTo236 ++ x.cookie.toList).length = headerBaseSize := by simp [headerBaseSize]
  rw [on,← List.append_assoc]
  exact List.drop_left' hlen

lemma zero_on (n : ℕ) : zero.on (List.replicate n 0) = List.replicate (headerBaseSize+n) 0 := by
  rw [List.eq_replicate_iff]
  constructor
  · rw [on_length,List.length_replicate]
  · intro b hb
    simp only [on,upTo236,upTo28,upTo12,front,zero,fit_nil,List.mem_append,List.mem_cons,List.mem_replicate,
      List.not_mem_nil] at hb
    tauto

end Bytes

section Access
variable {ε : Type} (x : Header) (t : List UInt8)

lemma put_on {i : ℕ} (hi : i < headerBaseSize) (v : UInt8) :
    (put (x.on t) i v : Outcome ε Hdr) = .ok ((x.on t).set i v) :=
  put_of_lt (by rw [on_length]; omega) v

lemma copy_xid (bs : List.Vector UInt8 4) :
    (copy (x.on t) 4 8 bs.toList : Outcome ε Hdr) = .ok ({x with xid := bs}.on t) := by
  have h := copy_middle (ε := ε) x.front x.xid.toList
    ([x.secs0,x.secs1,x.flags0,x.flags1] ++ (x.ciaddr.toList ++ (x.yiaddr.toList ++ (x.siaddr.toList ++
      (x.giaddr.toList ++ (x.chaddr.toList ++ (x.sname.toList ++ (x.file.toList ++ (x.cookie.toList ++ t)))))))))
    bs.toList
  rw [overlay_of_length (by simp)] at h
  simpa [on,upTo236,upTo28,upTo12,front] using h

lemma copy_ciaddr (bs : List UInt8) : (copy (x.on t) 12 16 bs : Outcome ε Hdr) =
    .ok ({x with ciaddr := ⟨overlay x.ciaddr.toList bs,by simp⟩}.on t) := by
  have h := copy_middle (ε := ε) x.upTo12 x.ciaddr.toList
    (x.yiaddr.toList ++ (x.siaddr.toList ++ (x.giaddr.toList ++ (x.chaddr.toList ++ (x.sname.toList ++
      (x.file.toList ++ (x.cookie.toList ++ t)))))))
    bs
  simpa [on,upTo236,upTo28,upTo12,front] using h

lemma copy_chaddr (bs : List UInt8) : (copy (x.on t) 28 44 bs : Outcome ε Hdr) =
    .ok ({x with chaddr := ⟨overlay x.chaddr.toList bs,by simp⟩}.on t) := by
  have h := copy_middle (ε := ε) x.upTo28 x.chaddr.toList
    (x.sname.toList ++ (x.file.toList ++ (x.cookie.toList ++ t))) bs
  simpa [on,upTo236,upTo28,upTo12,front] using h

lemma copy_cookie (bs : List.Vector UInt8 4) :
    (copy (x.on t) 236 240 bs.toList : Outcome ε Hdr) = .ok ({x with cookie := bs}.on t) := by
  have h := copy_middle (ε := ε) x.upTo236 x.cookie.toList t bs.toList
  rw [overlay_of_length (by simp)] at h
  simpa [on,upTo236,upTo28,upTo12,front] using h

lemma read_xid : Window.read (x.on t) 4 4 = x.xid.toList := by
  have h := read_middle x.front x.xid.toList
    ([x.secs0,x.secs1,x.flags0,x.flags1] ++ (x.ciaddr.toList ++ (x.yiaddr.toList ++ (x.siaddr.toList ++
      (x.giaddr.toList ++ (x.chaddr.toList ++ (x.sname.toList ++ (x.file.toList ++ (x.cookie.toList ++ t)))))))))
  simpa [on,upTo236,upTo28,upTo12,front] using h

lemma read_ciaddr : Window.read (x.on t) 12 4 = x.ciaddr.toList := by
  have h := read_middle x.upTo12 x.ciaddr.toList
    (x.yiaddr.toList ++ (x.siaddr.toList ++ (x.giaddr.toList ++ (x.chaddr.toList ++ (x.sname.toList ++
      (x.file.toList ++ (x.cookie.toList ++ t)))))))
  simpa [on,upTo236,upTo28,upTo12,front] using h

lemma flags_on : (x.on t)[10]? = some x.flags0 := by
  simp [on,upTo236,upTo28,upTo12,front,List.getElem?_append]

lemma read_yiaddr : Window.read (x.on t) 16 4 = x.yiaddr.toList := by
  have h := read_middle (x.upTo12 ++ x.ciaddr.toList) x.yiaddr.toList
    (x.siaddr.toList ++ (x.giaddr.toList ++ (x.chaddr.toList ++ (x.sname.toList ++ (x.file.toList ++
      (x.cookie.toList ++ t))))))
  simpa [on,upTo236,upTo28,upTo12,front] using h

lemma read_cookie : Window.read (x.on t) 236 4 = x.cookie.toList := by
  have h := read_middle x.upTo236 x.cookie.toList t
  simpa [on] using h

def magic : List.Vector UInt8 4 := ⟨magicCookie,rfl⟩

lemma init_on : (Hdr.init (x.on t) : Outcome ε Hdr) =
    .ok ({x with htype := 1, hlen := 6, hops := 0, secs0 := 0, secs1 := 0, cookie := magic}.on t) := by
  have hset (y : Header) {i : ℕ} (hi : i < headerBaseSize) (v : UInt8) := put_on (ε := ε) y t hi v
  have h1 : (x.on t).set 1 1 = {x with htype := 1}.on t := by simp [on,upTo236,upTo28,upTo12,front]
  have h2 (y : Header) : (y.on t).set 2 6 = {y with hlen := 6}.on t := by
    simp [on,upTo236,upTo28,upTo12,front]
  have h3 (y : Header) : (y.on t).set 3 0 = {y with hops := 0}.on t := by
    simp [on,upTo236,upTo28,upTo12,front]
  have h8 (y : Header) : (y.on t).set 8 0 = {y with secs0 := 0}.on t := by
    simp [on,upTo236,upTo28,upTo12,front]
  have h9 (y : Header) : (y.on t).set 9 0 = {y with secs1 := 0}.on t := by
    simp [on,upTo236,upTo28,upTo12,front]
  rw [Hdr.init,hset x (by decide),h1,Outcome.bind_ok,hset _ (by decide),h2,Outcome.bind_ok,
    hset _ (by decide),h3,Outcome.bind_ok,hset _ (by decide),h8,Outcome.bind_ok,hset _ (by decide),h9,
    Outcome.bind_ok]
  exact copy_cookie _ t magic

lemma setOp_on (v : UInt8) : (Hdr.setOp (x.on t) v : Outcome ε Hdr) = .ok ({x with op := v}.on t) := by
  rw [Hdr.setOp,put_on x t (by decide)]
  simp [on,upTo236,upTo28,upTo12,front]

lemma setBroadcast_on : (Hdr.setBroadcast (x.on t) : Outcome ε Hdr) =
    .ok ({x with flags0 := x.flags0 ||| ((1 : UInt8) <<< 7)}.on t) := by
  have hindex : (index (x.on t) 10 : Outcome ε UInt8) = .ok x.flags0 := by
    rw [index,flags_on]
  rw [Hdr.setBroadcast,hindex,Outcome.bind_ok,put_on x t (by decide)]
  simp [on,upTo236,upTo28,upTo12,front]

end Access

/-- The header of a request. -/
def request (linkAddr addr : List UInt8) (xid : List.Vector UInt8 4) (broadcast ciaddr : Bool) : Header :=
  {zero with
    op := opRequest
    htype := 1
    hlen := 6
    xid := xid
    flags0 := if broadcast then (1 : UInt8) <<< 7 else 0
    ciaddr := if ciaddr then fit 4 addr else fit 4 []
    chaddr := fit 16 linkAddr
    cookie := magic}

end Header

/-- The datagram that `send` writes. -/
def packet {ε : Type} (linkAddr addr : List UInt8) (opts : List Field) (xid : List.Vector UInt8 4)
    (broadcast ciaddr : Bool) : Outcome ε Hdr :=
  (Hdr.init (List.replicate (headerBaseSize+optsLen opts+1) 0)).bind fun h =>
  (Hdr.setOp h opRequest).bind fun h =>
  (copy h 4 8 xid.toList).bind fun h =>
  (if broadcast then Hdr.setBroadcast h else .ok h).bind fun h =>
  (if ciaddr then copy h 12 16 addr else .ok h).bind fun h =>
  (copy h 28 44 linkAddr).bind fun h =>
  setOptions h opts

lemma bytes_length (opts : List Field) : (bytes opts).length+1 = optsLen opts := by
  induction opts with
  | nil => rfl
  | cons opt opts ih =>
    simp only [optsLen,bytes_cons,List.length_append,Field.bytes_length,List.map_cons,List.sum_cons] at ih ⊢
    omega

lemma setOptions_on {ε : Type} (x : Header) (z : List UInt8) (opts : List Field)
    (hz : z.length = optsLen opts+1) :
    (setOptions (x.on z) opts : Outcome ε Hdr) = .ok (x.on (bytes opts ++ [255,0])) := by
  have hlen : (x.upTo236 ++ x.cookie.toList).length = headerBaseSize := by simp [headerBaseSize]
  have hk : z.length = (bytes opts).length+1+1 := by rw [hz,← bytes_length]
  have h := setOptionsFrom_eq (ε := ε) (x.upTo236 ++ x.cookie.toList) z opts hk
  rw [hlen,List.append_assoc] at h
  rw [setOptions,Header.on,h,Header.on,List.append_assoc]
  rfl

/-- Building a packet never leaves its bytes: the length that was set aside is the length
that is needed. -/
theorem packet_eq {ε : Type} (linkAddr addr : List UInt8) (opts : List Field) (xid : List.Vector UInt8 4)
    (broadcast ciaddr : Bool) :
    (packet linkAddr addr opts xid broadcast ciaddr : Outcome ε Hdr) =
      .ok ((Header.request linkAddr addr xid broadcast ciaddr).on (bytes opts ++ [255,0])) := by
  rw [packet,Nat.add_assoc,← Header.zero_on,Header.init_on,Outcome.bind_ok,Header.setOp_on,Outcome.bind_ok,
    Header.copy_xid,Outcome.bind_ok]
  have hz : (List.replicate (optsLen opts+1) (0 : UInt8)).length = optsLen opts+1 := List.length_replicate
  have hbroadcast (y : Header) (t : List UInt8) :
      (if broadcast then Hdr.setBroadcast (y.on t) else .ok (y.on t) : Outcome ε Hdr) =
        .ok ({y with flags0 := if broadcast then y.flags0 ||| ((1 : UInt8) <<< 7) else y.flags0}.on t) := by
    cases broadcast with
    | false => rfl
    | true => exact Header.setBroadcast_on y t
  have hciaddr (y : Header) (t : List UInt8) :
      (if ciaddr then copy (y.on t) 12 16 addr else .ok (y.on t) : Outcome ε Hdr) =
        .ok ({y with ciaddr := if ciaddr then ⟨overlay y.ciaddr.toList addr,by simp⟩ else y.ciaddr}.on t) := by
    cases ciaddr with
    | false => rfl
    | true => exact Header.copy_ciaddr y t addr
  rw [hbroadcast,Outcome.bind_ok,hciaddr,Outcome.bind_ok,Header.copy_chaddr,Outcome.bind_ok,
    setOptions_on _ _ _ hz]
  simp only [Header.zero,Header.request,fit_over]
  cases broadcast <;> cases ciaddr <;> rfl

/-- What is read of the options that `setOptions` writes. -/
lemma options_setOptions {h : Hdr} {opts xs : List Field} (hlen : headerBaseSize+optsLen opts ≤ h.length) :
    (setOptions h opts).bind options = .ok xs ↔
      Stream framing (bytes opts ++ 255::List.replicate (h.length-headerBaseSize-optsLen opts) 0) xs := by
  have htake : (h.take headerBaseSize).length = headerBaseSize := by
    rw [List.length_take]
    omega
  have hk : (h.drop headerBaseSize).length =
      (bytes opts).length+1+(h.length-headerBaseSize-optsLen opts) := by
    rw [bytes_length,List.length_drop]
    omega
  have hset := setOptionsFrom_eq (ε := OptionsError) (h.take headerBaseSize) _ opts hk
  rw [List.take_append_drop,htake] at hset
  rw [setOptions,hset,Outcome.bind_ok,options_eq_ok_iff (by simp [htake]),List.drop_left' htake]

/-- What `setOptions` writes is read back if and only if every option can be carried: its
code is neither that of a pad nor that of the end, and its length fits in a byte. -/
lemma options_setOptions_iff {h : Hdr} {opts : List Field} (hlen : headerBaseSize+optsLen opts ≤ h.length) :
    (setOptions h opts).bind options = .ok opts ↔ ∀ opt ∈ opts, framing.Carries opt := by
  rw [options_setOptions hlen]
  constructor
  · intro hs
    exact hs.carries
  · intro hall
    exact stream_bytes (by decide) hall _

/-- What is read of the options in a packet that has just the room for them. -/
lemma options_setOptions_le {h : Hdr} {opts xs : List Field} (hlen : h.length = headerBaseSize+optsLen opts)
    (hx : (setOptions h opts).bind options = .ok xs) :
    (∀ x ∈ xs, framing.Carries x) ∧ (bytes xs).length ≤ (bytes opts).length+1 := by
  have hs := (options_setOptions hlen.ge).mp hx
  have hle := hs.bytes_le
  have hrest : h.length-headerBaseSize-optsLen opts = 0 := by omega
  rw [hrest,List.length_append] at hle
  exact ⟨hs.carries,hle⟩

/-- The options that some packet can be read as are those that survive being written to
any packet with room for them. -/
theorem options_survive (opts : List Field) : List.TFAE [
    ∀ opt ∈ opts, framing.Carries opt,
    ∃ h : Hdr, headerBaseSize ≤ h.length ∧ options h = .ok opts,
    ∀ h : Hdr, headerBaseSize+optsLen opts ≤ h.length → (setOptions h opts).bind options = .ok opts] := by
  tfae_have 1 → 2 := by
    intro hall
    refine ⟨Header.zero.on (bytes opts ++ [255]),by simp [Header.on_length],?_⟩
    rw [options_eq_ok_iff (by simp [Header.on_length]),Header.on_drop]
    exact stream_bytes (by decide) hall []
  tfae_have 2 → 1 := by
    rintro ⟨h,hbase,hopts⟩
    exact ((options_eq_ok_iff hbase).mp hopts).carries
  tfae_have 1 → 3 := by
    intro hall h hlen
    exact (options_setOptions_iff hlen).mpr hall
  tfae_have 3 → 1 := by
    intro hall
    have hroom : headerBaseSize+optsLen opts ≤
        (List.replicate (headerBaseSize+optsLen opts) (0 : UInt8)).length := by
      simp
    exact (options_setOptions_iff hroom).mp (hall _ hroom)
  tfae_finish

end ArmoredWitness.Dhcp
