import ArmoredWitness.Dhcp.Reply
import ArmoredWitness.Lib.BigEndian

/-! A configuration is spread over the options of a packet. `decode` gathers it, `encode`
puts it in options. -/
namespace ArmoredWitness.Dhcp
open Lib Lib.Tlv Lib.Window

structure Config where
  serverAddress : List UInt8
  subnetMask : List UInt8
  router : List (List UInt8)
  dns : List (List UInt8)
  leaseLength : UInt32
  renewTime : UInt32
  rebindTime : UInt32
  deriving DecidableEq

namespace Config

def empty : Config := ⟨[],[],[],[],0,0,0⟩

inductive DecodeError
  | badLength (code : UInt8) (len : ℕ)
  deriving DecidableEq

/-- `binary.BigEndian.Uint32`, which looks at the last byte first. -/
def uint32 {ε : Type} (b : List UInt8) : Outcome ε UInt32 :=
  (index b 3).map fun _ => UInt32.ofNat (BigEndian.decode (b.take 4))

/-- One round of the loop that cuts a body into addresses. -/
def addressesBody {ε : Type} (s : List UInt8 × List (List UInt8)) :
    Turn (List UInt8 × List (List UInt8)) (Outcome ε (List (List UInt8))) :=
  if s.1.length ≠ 0 then
    match (slice s.1 0 4 : Outcome ε (List UInt8)) with
    | .ok a => .again (s.1.drop 4,s.2 ++ [addrFromSlice a])
    | .error e => .leave (.error e)
    | .panic p => .leave (.panic p)
  else .leave (.ok s.2)

def addressesLoop (ε : Type) : Loop (List UInt8 × List (List UInt8)) (Outcome ε (List (List UInt8))) where
  body := addressesBody
  measure s := s.1.length
  decreases := by
    intro s t hb
    unfold addressesBody at hb
    split at hb
    · split at hb
      · cases hb
        simp only [List.length_drop]
        omega
      · cases hb
      · cases hb
    · cases hb

/-- Append the addresses of a body. -/
def addresses {ε : Type} (b : List UInt8) (acc : List (List UInt8)) : Outcome ε (List (List UInt8)) :=
  (addressesLoop ε).exec (b,acc)

/-- What one option contributes. -/
def decodeOption (cfg : Config) (opt : Field) : Outcome DecodeError Config :=
  if lenValid opt.code opt.body.length = false then .error (.badLength opt.code opt.body.length)
  else if opt.code = optLeaseTime then (uint32 opt.body).map fun v => {cfg with leaseLength := v}
  else if opt.code = optRenewalTime then (uint32 opt.body).map fun v => {cfg with renewTime := v}
  else if opt.code = optRebindingTime then (uint32 opt.body).map fun v => {cfg with rebindTime := v}
  else if opt.code = optSubnetMask then .ok {cfg with subnetMask := opt.body}
  else if opt.code = optDHCPServer then .ok {cfg with serverAddress := addrFromSlice opt.body}
  else if opt.code = optRouter then (addresses opt.body cfg.router).map fun as => {cfg with router := as}
  else if opt.code = optDomainNameServer then (addresses opt.body cfg.dns).map fun as => {cfg with dns := as}
  else .ok cfg

def decodeFrom : Config → List Field → Outcome DecodeError Config
  | cfg, [] => .ok cfg
  | cfg, opt::opts => (decodeOption cfg opt).bind fun cfg => decodeFrom cfg opts

def decode (opts : List Field) : Outcome DecodeError Config := decodeFrom empty opts

def serializeLeaseOption (s : UInt32) (o : UInt8) : Field := ⟨o,BigEndian.encode 4 s.toNat⟩

def encode (cfg : Config) : List Field :=
  (if 0 < cfg.serverAddress.length then [⟨optDHCPServer,cfg.serverAddress⟩] else []) ++
  (if 0 < cfg.subnetMask.length then [⟨optSubnetMask,cfg.subnetMask⟩] else []) ++
  (if 0 < cfg.router.length then [⟨optRouter,cfg.router.flatten⟩] else []) ++
  (if 0 < cfg.dns.length then [⟨optDomainNameServer,cfg.dns.flatten⟩] else []) ++
  (if cfg.leaseLength ≠ 0 then [serializeLeaseOption cfg.leaseLength optLeaseTime] else []) ++
  (if cfg.rebindTime ≠ 0 then [serializeLeaseOption cfg.rebindTime optRebindingTime] else []) ++
  (if cfg.renewTime ≠ 0 then [serializeLeaseOption cfg.renewTime optRenewalTime] else [])

section Addresses
variable {ε : Type}

lemma addresses_flatten {as : List (List UInt8)} (h : ∀ a ∈ as, a.length = 4) (acc : List (List UInt8)) :
    (addresses as.flatten acc : Outcome ε (List (List UInt8))) = .ok (acc ++ as) := by
  induction as generalizing acc with
  | nil =>
    rw [List.append_nil]
    exact Loop.exec_leave _ rfl
  | cons a as ih =>
    obtain ⟨ha,has⟩ := List.forall_mem_cons.mp h
    have hslice : (slice (a ++ as.flatten) 0 4 : Outcome ε (List UInt8)) = .ok a := by
      have hs := slice_middle (ε := ε) [] a as.flatten
      simpa [ha] using hs
    have hbody : addressesBody (ε := ε) (a ++ as.flatten,acc) = .again (as.flatten,acc ++ [a]) := by
      rw [addressesBody,if_pos (by simp [ha]),hslice]
      simp [addrFromSlice,ha]
    have hrest := ih has (acc ++ [a])
    rw [addresses] at hrest
    rw [addresses,List.flatten_cons,Loop.exec_again (addressesLoop ε) hbody,hrest]
    simp

/-- A body whose length is a multiple of four is made of addresses. -/
lemma exists_flatten {b : List UInt8} (h : b.length % 4 = 0) :
    ∃ as : List (List UInt8), (∀ a ∈ as, a.length = 4) ∧ as.flatten = b := by
  induction hn : b.length using Nat.strongRecOn generalizing b with
  | ind n ih =>
    by_cases h0 : b.length = 0
    · exact ⟨[],by simp,by simpa using (List.length_eq_zero_iff.mp h0).symm⟩
    · have hdrop : (b.drop 4).length = b.length-4 := List.length_drop
      obtain ⟨as,has,hb⟩ := ih (b.drop 4).length (by omega) (b := b.drop 4) (by omega) rfl
      refine ⟨b.take 4::as,List.forall_mem_cons.mpr ⟨?_,has⟩,?_⟩
      · rw [List.length_take]
        omega
      · rw [List.flatten_cons,hb,List.take_append_drop]

lemma addresses_ok {b : List UInt8} (h : b.length % 4 = 0) (acc : List (List UInt8)) :
    ∃ as : List (List UInt8), (∀ a ∈ as, a.length = 4) ∧ as.flatten = b ∧
      (addresses b acc : Outcome ε (List (List UInt8))) = .ok (acc ++ as) := by
  obtain ⟨as,has,rfl⟩ := exists_flatten h
  exact ⟨as,has,rfl,addresses_flatten has acc⟩

end Addresses

section Decode

/-- The addresses of a configuration are those of IPv4. -/
structure Addressed (cfg : Config) : Prop where
  server : cfg.serverAddress = [] ∨ cfg.serverAddress.length = 4
  mask : cfg.subnetMask = [] ∨ cfg.subnetMask.length = 4
  router : ∀ a ∈ cfg.router, a.length = 4
  dns : ∀ a ∈ cfg.dns, a.length = 4

lemma addressed_empty : Addressed empty :=
  ⟨.inl rfl,.inl rfl,by simp [empty],by simp [empty]⟩

lemma uint32_of_length {ε : Type} {b : List UInt8} (h : b.length = 4) :
    (uint32 b : Outcome ε UInt32) = .ok (UInt32.ofNat (BigEndian.decode b)) := by
  rw [uint32,index_of_lt (by omega),Outcome.map_ok,← h,List.take_length]

/-- What an option of a valid length, with the body `b`, does to a configuration. -/
inductive Takes (cfg : Config) (b : List UInt8) : Config → Prop
  | lease (v : UInt32) (h : b.length = 4) : Takes cfg b {cfg with leaseLength := v}
  | renewal (v : UInt32) (h : b.length = 4) : Takes cfg b {cfg with renewTime := v}
  | rebinding (v : UInt32) (h : b.length = 4) : Takes cfg b {cfg with rebindTime := v}
  | mask (h : b.length = 4) : Takes cfg b {cfg with subnetMask := b}
  | server (h : b.length = 4) : Takes cfg b {cfg with serverAddress := b}
  | router (as : List (List UInt8)) (has : ∀ a ∈ as, a.length = 4) (hb : as.flatten = b) :
    Takes cfg b {cfg with router := cfg.router ++ as}
  | dns (as : List (List UInt8)) (has : ∀ a ∈ as, a.length = 4) (hb : as.flatten = b) :
    Takes cfg b {cfg with dns := cfg.dns ++ as}
  | other : Takes cfg b cfg

lemma decodeOption_ok (cfg : Config) {opt : Field} (hv : lenValid opt.code opt.body.length = true) :
    ∃ cfg', decodeOption cfg opt = .ok cfg' ∧ Takes cfg opt.body cfg' := by
  have h4 (code : UInt8) (hcode : opt.code = code) (hfour : ∀ l, lenValid code l = decide (l = 4)) :
      opt.body.length = 4 := by
    rw [hcode,hfour] at hv
    exact of_decide_eq_true hv
  have hmod (code : UInt8) (hcode : opt.code = code) (hfour : ∀ l, lenValid code l = decide (l % 4 = 0)) :
      opt.body.length % 4 = 0 := by
    rw [hcode,hfour] at hv
    exact of_decide_eq_true hv
  rw [decodeOption,if_neg (by rw [hv]; decide)]
  split
  · rename_i hcode
    have hl := h4 _ hcode fun _ => rfl
    rw [uint32_of_length hl]
    exact ⟨_,rfl,.lease _ hl⟩
  split
  · rename_i hcode
    have hl := h4 _ hcode fun _ => rfl
    rw [uint32_of_length hl]
    exact ⟨_,rfl,.renewal _ hl⟩
  split
  · rename_i hcode
    have hl := h4 _ hcode fun _ => rfl
    rw [uint32_of_length hl]
    exact ⟨_,rfl,.rebinding _ hl⟩
  split
  · rename_i hcode
    exact ⟨_,rfl,.mask (h4 _ hcode fun _ => rfl)⟩
  split
  · rename_i hcode
    have hl := h4 _ hcode fun _ => rfl
    have haddr : addrFromSlice opt.body = opt.body := if_pos (.inl hl)
    rw [haddr]
    exact ⟨_,rfl,.server hl⟩
  split
  · rename_i hcode
    obtain ⟨as,has,hb,hok⟩ := addresses_ok (ε := DecodeError) (hmod _ hcode fun _ => rfl) cfg.router
    rw [hok]
    exact ⟨_,rfl,.router as has hb⟩
  split
  · rename_i hcode
    obtain ⟨as,has,hb,hok⟩ := addresses_ok (ε := DecodeError) (hmod _ hcode fun _ => rfl) cfg.dns
    rw [hok]
    exact ⟨_,rfl,.dns as has hb⟩
  · exact ⟨cfg,rfl,.other⟩

/-- Only addresses come out of an option. -/
lemma Takes.addressed {cfg cfg' : Config} {b : List UInt8} (h : Takes cfg b cfg') (hc : Addressed cfg) :
    Addressed cfg' := by
  cases h with
  | lease v _ => exact ⟨hc.server,hc.mask,hc.router,hc.dns⟩
  | renewal v _ => exact ⟨hc.server,hc.mask,hc.router,hc.dns⟩
  | rebinding v _ => exact ⟨hc.server,hc.mask,hc.router,hc.dns⟩
  | mask hl => exact ⟨hc.server,.inr hl,hc.router,hc.dns⟩
  | server hl => exact ⟨.inr hl,hc.mask,hc.router,hc.dns⟩
  | router as has _ => exact ⟨hc.server,hc.mask,List.forall_mem_append.mpr ⟨hc.router,has⟩,hc.dns⟩
  | dns as has _ => exact ⟨hc.server,hc.mask,hc.router,List.forall_mem_append.mpr ⟨hc.dns,has⟩⟩
  | other => exact hc

lemma decodeOption_error {cfg : Config} {opt : Field} (hv : lenValid opt.code opt.body.length = false) :
    decodeOption cfg opt = .error (.badLength opt.code opt.body.length) := if_pos hv

/-- Decoding never panics, and it gives up exactly if an option has an invalid length. -/
lemma decodeFrom_ok {cfg : Config} (hc : Addressed cfg) (opts : List Field) :
    (∃ cfg', decodeFrom cfg opts = .ok cfg' ∧ Addressed cfg') ∨
    ∃ opt ∈ opts, lenValid opt.code opt.body.length = false ∧
      decodeFrom cfg opts = .error (.badLength opt.code opt.body.length) := by
  induction opts generalizing cfg with
  | nil => exact .inl ⟨cfg,rfl,hc⟩
  | cons opt opts ih =>
    rw [decodeFrom]
    cases hv : lenValid opt.code opt.body.length with
    | false =>
      rw [decodeOption_error hv]
      exact .inr ⟨opt,List.mem_cons_self,hv,rfl⟩
    | true =>
      obtain ⟨cfg',hok,htakes⟩ := decodeOption_ok cfg hv
      rw [hok,Outcome.bind_ok]
      cases ih (htakes.addressed hc) with
      | inl h => exact .inl h
      | inr h =>
        obtain ⟨o,ho,hbad,herr⟩ := h
        exact .inr ⟨o,List.mem_cons_of_mem _ ho,hbad,herr⟩

lemma decode_addressed {opts : List Field} {cfg : Config} (h : decode opts = .ok cfg) : Addressed cfg := by
  cases decodeFrom_ok addressed_empty opts with
  | inl hok =>
    obtain ⟨cfg',hcfg,hc⟩ := hok
    rw [decode,hcfg] at h
    cases h
    exact hc
  | inr herr =>
    obtain ⟨opt,-,-,hbad⟩ := herr
    rw [decode,hbad] at h
    cases h

lemma decode_ne_panic (opts : List Field) (p : Panic) : decode opts ≠ .panic p := by
  intro hp
  rw [decode] at hp
  cases decodeFrom_ok addressed_empty opts with
  | inl hok =>
    obtain ⟨cfg,hcfg,-⟩ := hok
    rw [hcfg] at hp
    cases hp
  | inr herr =>
    obtain ⟨opt,-,-,hbad⟩ := herr
    rw [hbad] at hp
    cases hp

lemma decodeFrom_append (cfg : Config) (xs ys : List Field) :
    decodeFrom cfg (xs ++ ys) = (decodeFrom cfg xs).bind fun cfg => decodeFrom cfg ys := by
  induction xs generalizing cfg with
  | nil => rfl
  | cons x xs ih =>
    rw [List.cons_append,decodeFrom,decodeFrom]
    cases decodeOption cfg x with
    | ok cfg' => exact ih cfg'
    | error e => rfl
    | panic p => rfl

end Decode

section Encode

lemma uint32_encode {ε : Type} (v : UInt32) : (uint32 (BigEndian.encode 4 v.toNat) : Outcome ε UInt32) = .ok v := by
  rw [uint32_of_length (BigEndian.encode_length 4 _),BigEndian.decode_encode_of_lt v.toNat_lt,UInt32.ofNat_toNat]

section Options
variable (cfg : Config)

lemma not_badLength {opt : Field} (h : lenValid opt.code opt.body.length = true) :
    ¬ lenValid opt.code opt.body.length = false := by
  rw [h]
  decide

lemma decodeOption_server {a : List UInt8} (h : a.length = 4) :
    decodeOption cfg ⟨optDHCPServer,a⟩ = .ok {cfg with serverAddress := a} := by
  have ha : addrFromSlice a = a := if_pos (.inl h)
  rw [decodeOption,if_neg (not_badLength (by rw [h]; rfl))]
  change Outcome.ok {cfg with serverAddress := addrFromSlice a} = _
  rw [ha]

lemma decodeOption_mask {a : List UInt8} (h : a.length = 4) :
    decodeOption cfg ⟨optSubnetMask,a⟩ = .ok {cfg with subnetMask := a} := by
  rw [decodeOption,if_neg (not_badLength (by rw [h]; rfl))]
  rfl

lemma length_flatten {as : List (List UInt8)} (h : ∀ a ∈ as, a.length = 4) : as.flatten.length = 4*as.length := by
  rw [List.length_flatten,List.map_congr_left (g := fun _ => 4) h]
  simp [Nat.mul_comm]

lemma decodeOption_router {as : List (List UInt8)} (h : ∀ a ∈ as, a.length = 4) :
    decodeOption cfg ⟨optRouter,as.flatten⟩ = .ok {cfg with router := cfg.router ++ as} := by
  have hv : lenValid optRouter as.flatten.length = true := by
    rw [length_flatten h]
    exact decide_eq_true (Nat.mul_mod_right 4 as.length)
  rw [decodeOption,if_neg (not_badLength hv)]
  change (addresses as.flatten cfg.router).map _ = _
  rw [addresses_flatten h]
  rfl

lemma decodeOption_dns {as : List (List UInt8)} (h : ∀ a ∈ as, a.length = 4) :
    decodeOption cfg ⟨optDomainNameServer,as.flatten⟩ = .ok {cfg with dns := cfg.dns ++ as} := by
  have hv : lenValid optDomainNameServer as.flatten.length = true := by
    rw [length_flatten h]
    exact decide_eq_true (Nat.mul_mod_right 4 as.length)
  rw [decodeOption,if_neg (not_badLength hv)]
  change (addresses as.flatten cfg.dns).map _ = _
  rw [addresses_flatten h]
  rfl

lemma decodeOption_lease (v : UInt32) :
    decodeOption cfg (serializeLeaseOption v optLeaseTime) = .ok {cfg with leaseLength := v} := by
  rw [decodeOption,serializeLeaseOption,if_neg (not_badLength (by rw [BigEndian.encode_length]; rfl)),if_pos rfl,
    uint32_encode]
  rfl

lemma decodeOption_renewal (v : UInt32) :
    decodeOption cfg (serializeLeaseOption v optRenewalTime) = .ok {cfg with renewTime := v} := by
  have hl : optRenewalTime ≠ optLeaseTime := by decide
  rw [decodeOption,serializeLeaseOption,if_neg (not_badLength (by rw [BigEndian.encode_length]; rfl)),if_neg hl,
    if_pos rfl,uint32_encode]
  rfl

lemma decodeOption_rebinding (v : UInt32) :
    decodeOption cfg (serializeLeaseOption v optRebindingTime) = .ok {cfg with rebindTime := v} := by
  have hl : optRebindingTime ≠ optLeaseTime := by decide
  have hr : optRebindingTime ≠ optRenewalTime := by decide
  rw [decodeOption,serializeLeaseOption,if_neg (not_badLength (by rw [BigEndian.encode_length]; rfl)),if_neg hl,
    if_neg hr,if_pos rfl,uint32_encode]
  rfl

end Options

/-- A part of the encoding that is left out when its field has the zero value. -/
lemma decodeFrom_part (cfg cfg' : Config) {p : Prop} [Decidable p] {opt : Field}
    (hpos : p → decodeOption cfg opt = .ok cfg') (hneg : ¬ p → cfg' = cfg) (rest : List Field) :
    decodeFrom cfg ((if p then [opt] else []) ++ rest) = decodeFrom cfg' rest := by
  rw [decodeFrom_append]
  by_cases hp : p
  · rw [if_pos hp,decodeFrom,hpos hp]
    rfl
  · rw [if_neg hp,hneg hp]
    rfl

lemma decode_encode {cfg : Config} (hc : Addressed cfg) : decode (encode cfg) = .ok cfg := by
  obtain ⟨server,mask,router,dns,lease,renew,rebind⟩ := cfg
  have hserver : 0 < server.length → server.length = 4 := by
    intro hpos
    exact hc.server.resolve_left (List.length_pos_iff.mp hpos)
  have hmask : 0 < mask.length → mask.length = 4 := by
    intro hpos
    exact hc.mask.resolve_left (List.length_pos_iff.mp hpos)
  rw [decode,encode,← List.append_nil (if renew ≠ 0 then _ else _)]
  simp only [List.append_assoc]
  rw [decodeFrom_part empty ⟨server,[],[],[],0,0,0⟩ (fun h => decodeOption_server _ (hserver h)) (by simp [empty]),
    decodeFrom_part _ ⟨server,mask,[],[],0,0,0⟩ (fun h => decodeOption_mask _ (hmask h)) (by simp),
    decodeFrom_part _ ⟨server,mask,router,[],0,0,0⟩ (fun _ => decodeOption_router _ hc.router) (by simp),
    decodeFrom_part _ ⟨server,mask,router,dns,0,0,0⟩ (fun _ => decodeOption_dns _ hc.dns) (by simp),
    decodeFrom_part _ ⟨server,mask,router,dns,lease,0,0⟩ (fun _ => decodeOption_lease _ lease) (by simp),
    decodeFrom_part _ ⟨server,mask,router,dns,lease,0,rebind⟩ (fun _ => decodeOption_rebinding _ rebind) (by simp),
    decodeFrom_part _ ⟨server,mask,router,dns,lease,renew,rebind⟩ (fun _ => decodeOption_renewal _ renew) (by simp)]
  rfl

/-- The configurations that can be decoded are those that survive being encoded. -/
theorem decode_encode_tfae (cfg : Config) : List.TFAE [
    Addressed cfg,
    ∃ opts, decode opts = .ok cfg,
    decode (encode cfg) = .ok cfg] := by
  tfae_have 1 → 3 := decode_encode
  tfae_have 3 → 2 := fun h => ⟨_,h⟩
  tfae_have 2 → 1 := by
    rintro ⟨opts,h⟩
    exact decode_addressed h
  tfae_finish

/-- The configurations that a packet carries: the addresses are those of IPv4, and there
are few enough of them for one option. -/
structure Carried (cfg : Config) : Prop extends Addressed cfg where
  routers : cfg.router.length ≤ 63
  servers : cfg.dns.length ≤ 63

lemma mem_encode {cfg : Config} {opt : Field} : opt ∈ encode cfg ↔
    (0 < cfg.serverAddress.length ∧ opt = ⟨optDHCPServer,cfg.serverAddress⟩) ∨
    (0 < cfg.subnetMask.length ∧ opt = ⟨optSubnetMask,cfg.subnetMask⟩) ∨
    (0 < cfg.router.length ∧ opt = ⟨optRouter,cfg.router.flatten⟩) ∨
    (0 < cfg.dns.length ∧ opt = ⟨optDomainNameServer,cfg.dns.flatten⟩) ∨
    (cfg.leaseLength ≠ 0 ∧ opt = serializeLeaseOption cfg.leaseLength optLeaseTime) ∨
    (cfg.rebindTime ≠ 0 ∧ opt = serializeLeaseOption cfg.rebindTime optRebindingTime) ∨
    (cfg.renewTime ≠ 0 ∧ opt = serializeLeaseOption cfg.renewTime optRenewalTime) := by
  simp only [encode,List.mem_append,List.mem_ite_nil_right,List.mem_singleton,or_assoc]

lemma carries_encode_iff {cfg : Config} (hc : Addressed cfg) :
    (∀ opt ∈ encode cfg, framing.Carries opt) ↔ Carried cfg := by
  have hfew {as : List (List UInt8)} (has : ∀ a ∈ as, a.length = 4) : as.flatten.length < 256 ↔ as.length ≤ 63 := by
    rw [length_flatten has]
    omega
  constructor
  · intro h
    refine ⟨hc,?_,?_⟩
    · by_cases h0 : 0 < cfg.router.length
      · have hopt := h _ (mem_encode.mpr (.inr (.inr (.inl ⟨h0,rfl⟩))))
        exact (hfew hc.router).mp hopt.length
      · omega
    · by_cases h0 : 0 < cfg.dns.length
      · have hopt := h _ (mem_encode.mpr (.inr (.inr (.inr (.inl ⟨h0,rfl⟩)))))
        exact (hfew hc.dns).mp hopt.length
      · omega
  · intro h opt hopt
    have htime (v : UInt32) : (BigEndian.encode 4 v.toNat).length < 256 := by simp
    rcases mem_encode.mp hopt with ⟨h0,rfl⟩ | ⟨h0,rfl⟩ | ⟨h0,rfl⟩ | ⟨h0,rfl⟩ | ⟨-,rfl⟩ | ⟨-,rfl⟩ | ⟨-,rfl⟩
    · have hl := hc.server.resolve_left (List.length_pos_iff.mp h0)
      exact carries_of (by decide) (by simp [hl])
    · have hl := hc.mask.resolve_left (List.length_pos_iff.mp h0)
      exact carries_of (by decide) (by simp [hl])
    · exact carries_of (by decide) ((hfew hc.router).mpr h.routers)
    · exact carries_of (by decide) ((hfew hc.dns).mpr h.servers)
    · exact carries_of (by decide) (htime _)
    · exact carries_of (by decide) (htime _)
    · exact carries_of (by decide) (htime _)

/-- The bytes for a part of `n` bytes, which is left out if it is empty. -/
def part (n : ℕ) : ℕ := if 0 < n then 2+n else 0

lemma part_le (n : ℕ) : part n ≤ 2+n := by
  unfold part
  split_ifs <;> omega

lemma part_pos {n : ℕ} (h : 0 < n) : part n = 2+n := if_pos h

/-- The bytes for a time. -/
def time (v : UInt32) : ℕ := if v ≠ 0 then 6 else 0

lemma time_le (v : UInt32) : time v ≤ 6 := by
  unfold time
  split_ifs <;> omega

/-- The length of the encoding. -/
def size (cfg : Config) : ℕ := (bytes (encode cfg)).length

lemma bytes_if_length (p : Prop) [Decidable p] (opt : Field) :
    (bytes (if p then [opt] else [])).length = if p then 2+opt.body.length else 0 := by
  split_ifs
  · rw [bytes_cons,bytes_nil,List.append_nil,Field.bytes_length]
  · rfl

lemma size_eq {cfg : Config} (hc : Addressed cfg) : size cfg =
    part cfg.serverAddress.length+part cfg.subnetMask.length+part (4*cfg.router.length)+
      part (4*cfg.dns.length)+time cfg.leaseLength+time cfg.rebindTime+time cfg.renewTime := by
  have hmany (as : List (List UInt8)) (has : ∀ a ∈ as, a.length = 4) :
      (if 0 < as.length then 2+as.flatten.length else 0) = part (4*as.length) := by
    rw [length_flatten has,part]
    exact if_congr (by omega) rfl rfl
  simp only [size,encode,bytes_append,List.length_append,bytes_if_length,hmany _ hc.router,hmany _ hc.dns,
    serializeLeaseOption,BigEndian.encode_length]
  rfl

/-- Addresses that came in one option, or were there before. -/
def Once (as as' : List (List UInt8)) : Prop := as' = as ∨ as = [] ∧ as'.length ≤ 63

lemma Once.trans {as bs cs : List (List UInt8)} (h : Once as bs) (h' : Once bs cs) : Once as cs := by
  rcases h with rfl | ⟨rfl,hb⟩
  · exact h'
  · rcases h' with rfl | ⟨-,hc⟩
    · exact .inr ⟨rfl,hb⟩
    · exact .inr ⟨rfl,hc⟩

/-- What options of `n` bytes can do: the encoding grows by at most that much, and by two
bytes less at least, unless all the routers came in one option, and all the name servers. -/
def Grows (n : ℕ) (cfg cfg' : Config) : Prop :=
  size cfg'+2 ≤ size cfg+n ∨
    size cfg' ≤ size cfg+n ∧ Once cfg.router cfg'.router ∧ Once cfg.dns cfg'.dns

lemma Grows.le {n : ℕ} {cfg cfg' : Config} (h : Grows n cfg cfg') : size cfg' ≤ size cfg+n := by
  rcases h with h | ⟨h,-⟩
  · omega
  · exact h

lemma Grows.trans {m n : ℕ} {x y z : Config} (h : Grows m x y) (h' : Grows n y z) : Grows (m+n) x z := by
  have hle := h.le
  have hle' := h'.le
  rcases h with h | ⟨-,hr,hd⟩
  · exact .inl (by omega)
  · rcases h' with h' | ⟨-,hr',hd'⟩
    · exact .inl (by omega)
    · exact .inr ⟨by omega,hr.trans hr',hd.trans hd'⟩

/-- Appending the addresses of one more option. -/
lemma part_append {b : List UInt8} (hb : b.length < 256) (xs : List (List UInt8)) {as : List (List UInt8)}
    (has : ∀ a ∈ as, a.length = 4) (hflat : as.flatten = b) :
    part (4*(xs ++ as).length) ≤ part (4*xs.length)+b.length ∨
    part (4*(xs ++ as).length) ≤ part (4*xs.length)+(2+b.length) ∧ Once xs (xs ++ as) := by
  have hlen : b.length = 4*as.length := by rw [← hflat,length_flatten has]
  rcases List.eq_nil_or_concat' xs with rfl | ⟨ys,y,rfl⟩
  · rw [List.nil_append]
    have hle := part_le (4*as.length)
    exact .inr ⟨by omega,.inr ⟨rfl,by omega⟩⟩
  · left
    have hpos : 0 < (ys ++ [y]).length := by simp
    have hsum : ((ys ++ [y]) ++ as).length = (ys ++ [y]).length+as.length := List.length_append
    rw [hsum,part_pos (by omega),part_pos (by omega)]
    omega

lemma Takes.grows {cfg cfg' : Config} {b : List UInt8} (h : Takes cfg b cfg') (hc : Addressed cfg)
    (hb : b.length < 256) : Grows (2+b.length) cfg cfg' := by
  have hsize := size_eq hc
  have hsize' := size_eq (h.addressed hc)
  cases h with
  | lease v hl =>
    have hv := time_le v
    exact .inr ⟨by dsimp only at hsize'; omega,.inl rfl,.inl rfl⟩
  | renewal v hl =>
    have hv := time_le v
    exact .inr ⟨by dsimp only at hsize'; omega,.inl rfl,.inl rfl⟩
  | rebinding v hl =>
    have hv := time_le v
    exact .inr ⟨by dsimp only at hsize'; omega,.inl rfl,.inl rfl⟩
  | mask hl =>
    have hp := part_le b.length
    exact .inr ⟨by dsimp only at hsize'; omega,.inl rfl,.inl rfl⟩
  | server hl =>
    have hp := part_le b.length
    exact .inr ⟨by dsimp only at hsize'; omega,.inl rfl,.inl rfl⟩
  | router as has hflat =>
    rcases part_append hb cfg.router has hflat with hp | ⟨hp,honce⟩
    · exact .inl (by dsimp only at hsize'; omega)
    · exact .inr ⟨by dsimp only at hsize'; omega,honce,.inl rfl⟩
  | dns as has hflat =>
    rcases part_append hb cfg.dns has hflat with hp | ⟨hp,honce⟩
    · exact .inl (by dsimp only at hsize'; omega)
    · exact .inr ⟨by dsimp only at hsize'; omega,.inl rfl,honce⟩
  | other => exact .inl (by omega)

lemma decodeFrom_grows {opts : List Field} (hopts : ∀ opt ∈ opts, opt.body.length < 256) {cfg cfg' : Config}
    (hc : Addressed cfg) (h : decodeFrom cfg opts = .ok cfg') : Grows (bytes opts).length cfg cfg' := by
  induction opts generalizing cfg with
  | nil =>
    cases h
    exact .inr ⟨le_rfl,.inl rfl,.inl rfl⟩
  | cons opt opts ih =>
    obtain ⟨hopt,hrest⟩ := List.forall_mem_cons.mp hopts
    obtain ⟨x,hx,h⟩ := Outcome.bind_eq_ok.mp h
    cases hv : lenValid opt.code opt.body.length with
    | false =>
      rw [decodeOption_error hv] at hx
      cases hx
    | true =>
      obtain ⟨y,hy,htakes⟩ := decodeOption_ok cfg hv
      cases hx.symm.trans hy
      have hgrows := (htakes.grows hc hopt).trans (ih hrest (htakes.addressed hc) h)
      rwa [← Field.bytes_length,← List.length_append] at hgrows

/-- A configuration is carried if some options that are not longer than its own encoding and
the end option decode to it. -/
lemma carried_of_decode {cfg : Config} {opts : List Field} (hopts : ∀ opt ∈ opts, opt.body.length < 256)
    (hlen : (bytes opts).length ≤ size cfg+1) (h : decode opts = .ok cfg) : Carried cfg := by
  have hzero : size empty = 0 := rfl
  rcases decodeFrom_grows hopts addressed_empty h with hless | ⟨-,hr,hd⟩
  · omega
  · refine ⟨decode_addressed h,?_,?_⟩
    · rcases hr with hr | ⟨-,hr⟩
      · rw [hr]
        decide
      · exact hr
    · rcases hd with hd | ⟨-,hd⟩
      · rw [hd]
        decide
      · exact hd

/-- A configuration comes back from every packet it is put in if and only if its addresses
are those of IPv4 and there are at most 63 routers and 63 name servers. -/
theorem config_round_trip (cfg : Config) :
    (∀ h : Hdr, headerBaseSize+optsLen (encode cfg) ≤ h.length →
      ∃ opts, (setOptions h (encode cfg)).bind options = .ok opts ∧ decode opts = .ok cfg) ↔
    Carried cfg := by
  constructor
  · intro h
    have hroom : headerBaseSize+optsLen (encode cfg) =
        (List.replicate (headerBaseSize+optsLen (encode cfg)) (0 : UInt8)).length := List.length_replicate.symm
    obtain ⟨opts,hset,hdec⟩ := h _ hroom.le
    obtain ⟨hcarries,hle⟩ := options_setOptions_le hroom.symm hset
    exact carried_of_decode (fun opt hopt => (hcarries opt hopt).length) hle hdec
  · intro hc h hroom
    exact ⟨_,(options_setOptions_iff hroom).mpr ((carries_encode_iff hc.toAddressed).mpr hc),
      decode_encode hc.toAddressed⟩

end Encode

end Config

end ArmoredWitness.Dhcp
