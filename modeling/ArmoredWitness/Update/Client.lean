import ArmoredWitness.Lib.Blocks
import ArmoredWitness.Lib.Chunks

/-! The update client: a firmware image is sent to the OS in chunks, and the proof that
makes the OS install it goes with the last one. A successful install does not
return, and the loop that sends the chunks ends only when an RPC fails. -/
namespace ArmoredWitness.Update
open Lib

def fwUpdateChunkSize : ℕ := 1 <<< 20

/-- The information that is needed for firmware to be installed. -/
structure Bundle where
  checkpoint : List UInt8
  index : UInt64
  inclusionProof : List (List UInt8)
  manifest : List UInt8
  firmware : List UInt8

structure ProofBundle where
  checkpoint : List UInt8
  logIndex : UInt64
  inclusionProof : List (List UInt8)
  manifest : List UInt8
  deriving DecidableEq

/-- The proof of a request for which none has been set. -/
def ProofBundle.zero : ProofBundle := ⟨[],0,[],[]⟩

def Bundle.proof (fb : Bundle) : ProofBundle := ⟨fb.checkpoint,fb.index,fb.inclusionProof,fb.manifest⟩

/-- The arguments of `RPC.InstallOS` and `RPC.InstallApplet`. -/
structure FirmwareUpdate where
  sequence : ℕ
  image : List UInt8
  proof : ProofBundle

/-- The variables of the loop in `sendChunkedUpdate`: the counter, what is left of the
firmware, and the proof in the one request object that is used for every RPC. -/
structure Sending where
  i : ℕ
  firmware : List UInt8
  proof : ProofBundle

namespace Sending
variable (fb : Bundle) (s : Sending)

def init : Sending := ⟨0,fb.firmware,.zero⟩

/-- The last chunk has been reached. -/
def Last : Prop := s.firmware.length ≤ fwUpdateChunkSize

instance : Decidable s.Last := inferInstanceAs (Decidable (_ ≤ _))

def size : ℕ := if s.Last then s.firmware.length else fwUpdateChunkSize

/-- The request that a round sends. -/
def request : FirmwareUpdate :=
  ⟨s.i,s.firmware.take s.size,if s.Last then fb.proof else s.proof⟩

/-- The variables after a round whose RPC returns nil. -/
def next : Sending := ⟨s.i+1,s.firmware.drop s.size,if s.Last then fb.proof else s.proof⟩

end Sending

variable {ε : Type*}

/-- `sendChunkedUpdate` with a bound on its rounds. The RPC with number `i` returns
`call i`, where nothing stands for nil; the result is the requests that were made and
the error that was returned. -/
def sendChunkedUpdate (fb : Bundle) (call : ℕ → Option ε) : ℕ → Sending → Option (List FirmwareUpdate × ε)
  | 0, _ => none
  | fuel+1, s =>
    match call s.i with
    | some e => some ([s.request fb],e)
    | none => (sendChunkedUpdate fb call fuel (s.next fb)).map fun (sent,e) => (s.request fb::sent,e)

/-- The number of requests for a bundle. -/
def Bundle.chunks (fb : Bundle) : ℕ := max 1 (Blocks.count fwUpdateChunkSize fb.firmware.length)

/-- Request `i` of the update. -/
def Bundle.request (fb : Bundle) (i : ℕ) : FirmwareUpdate :=
  ⟨i,Chunks.chunk fwUpdateChunkSize fb.firmware i,if fb.chunks ≤ i+1 then fb.proof else .zero⟩

/-- The requests that make up the update. -/
def Bundle.requests (fb : Bundle) : List FirmwareUpdate := (List.range fb.chunks).map fb.request

section Rounds
variable {fb : Bundle}

lemma chunkSize_pos : 0 < fwUpdateChunkSize := by decide

lemma chunks_le_iff (i : ℕ) : fb.chunks ≤ i+1 ↔ fb.firmware.length ≤ (i+1)*fwUpdateChunkSize := by
  rw [← Blocks.count_le_iff chunkSize_pos]
  unfold Bundle.chunks
  omega

/-- The variables at the beginning of round `i`. -/
structure Sending.At (fb : Bundle) (i : ℕ) (s : Sending) : Prop where
  counter : s.i = i
  rest : s.firmware = fb.firmware.drop (i*fwUpdateChunkSize)
  proof : s.proof = if fb.chunks ≤ i then fb.proof else .zero

namespace Sending.At
variable {i : ℕ} {s : Sending}

lemma init (fb : Bundle) : (Sending.init fb).At fb 0 := by
  refine ⟨rfl,by simp [Sending.init],?_⟩
  rw [if_neg]
  · rfl
  · unfold Bundle.chunks
    omega

variable (h : s.At fb i)
include h

lemma last_iff : s.Last ↔ fb.chunks ≤ i+1 := by
  rw [chunks_le_iff,Sending.Last,h.rest,List.length_drop,Nat.succ_mul]
  omega

lemma proof_eq : (if s.Last then fb.proof else s.proof) = if fb.chunks ≤ i+1 then fb.proof else .zero := by
  by_cases hl : s.Last
  · rw [if_pos hl,if_pos (h.last_iff.mp hl)]
  · have hnot : ¬ fb.chunks ≤ i+1 := fun hc => hl (h.last_iff.mpr hc)
    rw [if_neg hl,if_neg hnot,h.proof,if_neg (by omega)]

/-- The request of round `i` carries chunk `i`. -/
lemma request_eq : s.request fb = fb.request i := by
  have himage : s.firmware.take s.size = Chunks.chunk fwUpdateChunkSize fb.firmware i := by
    rw [Chunks.chunk,← h.rest,Sending.size]
    split_ifs with hl
    · rw [List.take_length,List.take_of_length_le hl]
    · rfl
  rw [Sending.request,Bundle.request,h.counter,himage,h.proof_eq]

lemma next : (s.next fb).At fb (i+1) := by
  refine ⟨?_,?_,h.proof_eq⟩
  · rw [Sending.next,h.counter]
  · have hdrop : s.firmware.drop s.size = s.firmware.drop fwUpdateChunkSize := by
      rw [Sending.size]
      split_ifs with hl
      · rw [List.drop_length,List.drop_eq_nil_of_le hl]
      · rfl
    change s.firmware.drop s.size = _
    rw [hdrop,h.rest,List.drop_drop,Nat.succ_mul]

end Sending.At
end Rounds

section Runs
variable {fb : Bundle} {call : ℕ → Option ε}

/-- The loop runs up to the first RPC that fails. -/
theorem send_until {n i : ℕ} {s : Sending} (h : s.At fb i) (hnil : ∀ j < n, call (i+j) = none) {e : ε}
    (he : call (i+n) = some e) : sendChunkedUpdate fb call (n+1) s =
      some ((List.range (n+1)).map fun j => fb.request (i+j),e) := by
  induction n generalizing i s with
  | zero =>
    have hc : call s.i = some e := by rw [h.counter]; exact he
    simp only [sendChunkedUpdate,hc,h.request_eq]
    rfl
  | succ n ih =>
    have hc : call s.i = none := by rw [h.counter]; exact hnil 0 (by omega)
    have hrec := ih h.next (fun j hj => by
      have hj' := hnil (j+1) (by omega)
      rwa [Nat.add_comm j,← Nat.add_assoc] at hj') (by rwa [Nat.add_right_comm])
    rw [sendChunkedUpdate,hc]
    dsimp only
    rw [hrec,h.request_eq,Option.map_some,List.range_succ_eq_map (n := n+1)]
    simp only [List.map_cons,List.map_map,Nat.add_zero,Function.comp_def,Nat.succ_eq_add_one]
    congr 3
    apply List.map_congr_left
    intro j _
    rw [Nat.add_assoc,Nat.add_comm 1]

/-- As long as every RPC returns nil, it goes on. -/
lemma send_never (hnil : ∀ i, call i = none) (fuel : ℕ) (s : Sending) :
    sendChunkedUpdate fb call fuel s = none := by
  induction fuel generalizing s with
  | zero => rfl
  | succ fuel ih => simp only [sendChunkedUpdate,hnil,ih,Option.map_none]

end Runs

/-- A list of requests from which the OS can put the image together, and which gives it
the proof once it has all of it. -/
structure Bundle.Complete (fb : Bundle) (l : List FirmwareUpdate) : Prop where
  length : l.length = max 1 (Blocks.count fwUpdateChunkSize fb.firmware.length)
  sequence : l.map FirmwareUpdate.sequence = List.range l.length
  image : (l.map FirmwareUpdate.image).flatten = fb.firmware
  bounded : ∀ r ∈ l, r.image.length ≤ fwUpdateChunkSize
  full : ∀ i r, l[i]? = some r → i+1 < l.length → r.image.length = fwUpdateChunkSize
  proof : ∀ i r, l[i]? = some r → (r.proof = fb.proof ↔ i+1 = l.length)

/-- The RPC that carries a proof does not return nil: a successful install does not
return. -/
def Bundle.Installs (fb : Bundle) (call : ℕ → Option ε) : Prop :=
  ∀ i, (fb.request i).proof ≠ .zero → call i ≠ none

/-- The update ends, and the requests that were made by then are the beginning of a
complete list: all of it exactly if no RPC before the last one failed. -/
def Bundle.Delivered (fb : Bundle) (call : ℕ → Option ε) : Prop :=
  ∃ l fuel sent e, fb.Complete l ∧ sendChunkedUpdate fb call fuel (.init fb) = some (sent,e) ∧
    sent <+: l ∧ (sent = l ↔ ∀ i, i+1 < l.length → call i = none)

section Delivery
variable {fb : Bundle}

lemma requests_getElem? {i : ℕ} {r : FirmwareUpdate} (h : fb.requests[i]? = some r) :
    i < fb.chunks ∧ r = fb.request i := by
  simp only [Bundle.requests,List.getElem?_map,Option.map_eq_some_iff,List.getElem?_eq_some_iff,
    List.length_range,List.getElem_range] at h
  obtain ⟨_,⟨hlt,rfl⟩,rfl⟩ := h
  exact ⟨hlt,rfl⟩

lemma request_proof_zero (h : fb.proof = .zero) (i : ℕ) : (fb.request i).proof = .zero := by
  rw [Bundle.request,h]
  exact ite_self _

theorem requests_complete (hproof : fb.proof ≠ .zero) : fb.Complete fb.requests := by
  have hlen : fb.requests.length = fb.chunks := by simp [Bundle.requests]
  refine ⟨hlen,?_,?_,?_,?_,?_⟩
  · rw [hlen,Bundle.requests,List.map_map]
    exact List.map_id _
  · have hmap : fb.requests.map FirmwareUpdate.image =
        (List.range fb.chunks).map (Chunks.chunk fwUpdateChunkSize fb.firmware) := by
      rw [Bundle.requests,List.map_map]
      rfl
    have hall : fb.firmware.length ≤ fb.chunks*fwUpdateChunkSize :=
      (Blocks.count_le_iff chunkSize_pos _ _).mp (Nat.le_max_right _ _)
    rw [hmap,Chunks.flatten_chunks,List.take_of_length_le hall]
  · intro r hr
    obtain ⟨i,-,rfl⟩ := List.mem_map.mp hr
    change (Chunks.chunk _ _ _).length ≤ _
    rw [Chunks.chunk_length]
    exact Nat.min_le_left _ _
  · intro i r hr hi
    obtain ⟨-,rfl⟩ := requests_getElem? hr
    have hmore : ¬ fb.firmware.length ≤ (i+1)*fwUpdateChunkSize := by
      rw [← chunks_le_iff]
      omega
    change (Chunks.chunk _ _ _).length = _
    rw [Nat.succ_mul] at hmore
    rw [Chunks.chunk_length]
    omega
  · intro i r hr
    obtain ⟨hi,rfl⟩ := requests_getElem? hr
    rw [hlen,Bundle.request]
    dsimp only
    by_cases hl : fb.chunks ≤ i+1
    · rw [if_pos hl]
      exact ⟨fun _ => by omega,fun _ => rfl⟩
    · rw [if_neg hl]
      exact ⟨fun hz => absurd hz.symm hproof,fun he => by omega⟩

/-- Up to the first RPC that fails, which is the last one at the latest. -/
lemma delivered {call : ℕ → Option ε} (hproof : fb.proof ≠ .zero) (hinst : fb.Installs call) :
    fb.Delivered call := by
  have hpos : 1 ≤ fb.chunks := Nat.le_max_left _ _
  have hlast : call (fb.chunks-1) ≠ none := by
    apply hinst
    change (if fb.chunks ≤ fb.chunks-1+1 then fb.proof else .zero) ≠ .zero
    rwa [if_pos (by omega)]
  obtain ⟨n,hn,hbefore⟩ : ∃ n, call n ≠ none ∧ ∀ j < n, call j = none := by
    classical
    have hex : ∃ n, call n ≠ none := ⟨_,hlast⟩
    exact ⟨Nat.find hex,Nat.find_spec hex,fun j hj => not_not.mp (Nat.find_min hex hj)⟩
  have hle : n ≤ fb.chunks-1 := by
    by_contra hlt
    exact hlast (hbefore _ (by omega))
  obtain ⟨e,he⟩ := Option.ne_none_iff_exists'.mp hn
  have hsend := send_until (Sending.At.init fb) (fun j hj => by rw [Nat.zero_add]; exact hbefore j hj)
    (show call (0+n) = some e by rwa [Nat.zero_add])
  have hreq : (fun j => fb.request (0+j)) = fb.request := by
    funext j
    rw [Nat.zero_add]
  rw [hreq] at hsend
  have hlen : fb.requests.length = fb.chunks := by simp [Bundle.requests]
  refine ⟨fb.requests,n+1,_,e,requests_complete hproof,hsend,?_,?_⟩
  · have htake : (List.range (n+1)).map fb.request = fb.requests.take (n+1) := by
      rw [Bundle.requests,← List.map_take,List.take_range,Nat.min_eq_left (by omega)]
    rw [htake]
    exact List.take_prefix _ _
  · rw [hlen]
    constructor
    · intro hall i hi
      have hcount := congrArg List.length hall
      rw [hlen,List.length_map,List.length_range] at hcount
      exact hbefore i (by omega)
    · intro hnil
      have hn' : n+1 = fb.chunks := by
        by_contra hne
        exact hn (hnil n (by omega))
      rw [Bundle.requests,hn']

end Delivery

/-- Whatever the RPCs return, as long as an install does not return nil, the chunks
reassemble to the image; for this the bundle has to have a proof. -/
theorem chunks_reassemble_iff (fb : Bundle) :
    (∀ call : ℕ → Option ε, fb.Installs call → fb.Delivered call) ↔ fb.proof ≠ .zero := by
  constructor
  · intro h hzero
    have hnone : fb.Installs fun _ => (none : Option ε) :=
      fun i hi => absurd (request_proof_zero hzero i) hi
    obtain ⟨l,fuel,sent,e,-,hsend,-⟩ := h _ hnone
    rw [send_never fun _ => rfl] at hsend
    cases hsend
  · intro hproof call hinst
    exact delivered hproof hinst

/-- One byte of firmware and no proof. -/
def unproved : Bundle := ⟨[],0,[],[],[0x41]⟩

/-- No RPC carries a proof, so that all of them may return nil, and the client goes on
sending empty chunks without end. -/
theorem unproved_never_ends : unproved.Installs (fun _ => (none : Option Unit)) ∧
    (∀ fuel, sendChunkedUpdate unproved (fun _ => (none : Option Unit)) fuel (.init unproved) = none) ∧
    ∀ i, 0 < i → (unproved.request i).image = [] := by
  refine ⟨?_,fun fuel => send_never (fun _ => rfl) fuel _,?_⟩
  · exact fun i hi => absurd (request_proof_zero rfl i) hi
  · intro i hi
    have hle : unproved.firmware.length ≤ i*fwUpdateChunkSize := by
      have hone : unproved.firmware.length = 1 := rfl
      have hpos := Nat.mul_pos hi chunkSize_pos
      omega
    change Chunks.chunk _ _ _ = []
    rw [Chunks.chunk,List.drop_eq_nil_of_le hle,List.take_nil]

end ArmoredWitness.Update
