import Mathlib.Tactic.SplitIfs
import PriceOracle.Database
import PriceOracle.Markers

/-!
# Marker codecs

Each decoder reads what its encoder writes, and nothing that its encoder does not write. Magic and
version tell the four formats apart.
-/

namespace PriceOracle

open OpReturn

namespace Markers

section Keys

@[simp]
theorem toKey_toList (key : Bytes32) : toKey key.toList = key := by
  apply Vector.ext
  intro i hi
  have hlength : i < key.toList.length := by rwa [Vector.length_toList]
  rw [toKey, Vector.getElem_ofFn, List.getD_eq_getElem?_getD, List.getElem?_eq_getElem hlength, Vector.getElem_toList,
    Option.getD_some]

theorem toList_toKey {bytes : List UInt8} (hlength : bytes.length = 32) : (toKey bytes).toList = bytes := by
  have hofFn : (toKey bytes).toList = List.ofFn fun i : Fin 32 => bytes.getD i 0 := Vector.toList_ofFn
  rw [hofFn]
  apply List.ext_getElem (by rw [List.length_ofFn, hlength])
  intro i hi hbytes
  rw [List.getElem_ofFn, List.getD_eq_getElem?_getD, List.getElem?_eq_getElem hbytes, Option.getD_some]

theorem length_chunks (size count : ℕ) (bytes : List UInt8) : (chunks size count bytes).length = count := by
  induction count generalizing bytes with
  | zero => rfl
  | succ count ih => rw [chunks, List.length_cons, ih]

theorem flatten_chunks (size count : ℕ) (bytes : List UInt8) :
    (chunks size count bytes).flatten = bytes.take (count * size) := by
  induction count generalizing bytes with
  | zero => rw [chunks, List.flatten_nil, Nat.zero_mul, List.take_zero]
  | succ count ih =>
    rw [chunks, List.flatten_cons, ih, Nat.succ_mul, Nat.add_comm, List.take_add]

theorem length_of_mem_chunks {size count : ℕ} {bytes chunk : List UInt8} (hlength : count * size ≤ bytes.length)
    (hmem : chunk ∈ chunks size count bytes) : chunk.length = size := by
  induction count generalizing bytes with
  | zero => cases hmem
  | succ count ih =>
    rw [Nat.succ_mul] at hlength
    rw [chunks] at hmem
    rcases List.mem_cons.mp hmem with rfl | hmem
    · rw [List.length_take]
      omega
    · exact ih (by rw [List.length_drop]; omega) hmem

/-- Chunks of one size are found where they were put together. -/
theorem chunks_flatten {size : ℕ} {list : List (List UInt8)} (rest : List UInt8)
    (hsize : ∀ chunk ∈ list, chunk.length = size) : chunks size list.length (list.flatten ++ rest) = list := by
  induction list with
  | nil => rfl
  | cons chunk list ih =>
    have hchunk := hsize chunk List.mem_cons_self
    rw [List.length_cons, chunks, List.flatten_cons, List.append_assoc, List.take_append_of_le_length (by omega),
      List.take_of_length_le (by omega), List.drop_append_of_le_length (by omega), List.drop_of_length_le (by omega),
      List.nil_append, ih fun other hother => hsize other (List.mem_cons_of_mem chunk hother)]

theorem length_flatMap_toList (keys : List Bytes32) : (keys.flatMap Vector.toList).length = keys.length * 32 := by
  induction keys with
  | nil => rfl
  | cons key keys ih =>
    rw [List.flatMap_cons, List.length_append, Vector.length_toList, ih, List.length_cons]
    omega

theorem keysOf_flatMap (keys : List Bytes32) (rest : List UInt8) :
    keysOf keys.length (keys.flatMap Vector.toList ++ rest) = keys := by
  have hsize : ∀ chunk ∈ keys.map Vector.toList, chunk.length = 32 := by
    intro chunk hchunk
    obtain ⟨key, -, rfl⟩ := List.mem_map.mp hchunk
    exact Vector.length_toList
  have hchunks := chunks_flatten rest hsize
  rw [List.length_map] at hchunks
  rw [keysOf, List.flatMap_def, hchunks, List.map_map]
  exact (List.map_congr_left fun key _ => toKey_toList key).trans (List.map_id _)

theorem flatMap_keysOf {count : ℕ} {bytes : List UInt8} (hlength : count * 32 ≤ bytes.length) :
    (keysOf count bytes).flatMap Vector.toList = bytes.take (count * 32) := by
  have hkeys : (keysOf count bytes).map Vector.toList = chunks 32 count bytes := by
    rw [keysOf, List.map_map]
    refine (List.map_congr_left fun chunk hchunk => ?_).trans (List.map_id _)
    exact toList_toKey (length_of_mem_chunks hlength hchunk)
  rw [List.flatMap_def, hkeys, flatten_chunks]

theorem length_keysOf (count : ℕ) (bytes : List UInt8) : (keysOf count bytes).length = count := by
  rw [keysOf, List.length_map, length_chunks]

instance : Std.Total fun a b : Bytes32 => a.toList ≤ b.toList := ⟨fun a b => List.le_total a.toList b.toList⟩

instance : IsTrans Bytes32 fun a b => a.toList ≤ b.toList := ⟨fun _ _ _ => List.le_trans⟩

theorem pairwise_of_ascending {keys : List Bytes32} (h : ascending keys = true) :
    keys.Pairwise fun a b => a.toList < b.toList := by
  induction keys with
  | nil => exact .nil
  | cons a keys ih =>
    cases keys with
    | nil => exact List.pairwise_singleton _ _
    | cons b keys =>
      rw [ascending, Bool.and_eq_true, decide_eq_true_eq] at h
      have hrest := ih h.2
      refine .cons (fun c hc => ?_) hrest
      rcases List.mem_cons.mp hc with rfl | hc
      · exact h.1
      · exact List.lt_trans h.1 (List.rel_of_pairwise_cons hrest hc)

theorem ascending_of_pairwise {keys : List Bytes32} (h : keys.Pairwise fun a b => a.toList < b.toList) :
    ascending keys = true := by
  induction keys with
  | nil => rfl
  | cons a keys ih =>
    cases keys with
    | nil => rfl
    | cons b keys =>
      rw [ascending, ih h.of_cons, Bool.and_true, decide_eq_true_eq]
      exact List.rel_of_pairwise_cons h List.mem_cons_self

theorem ascending_sortedKeys (keys : List Bytes32) : ascending (sortedKeys keys) = true := by
  have hle : (sortedKeys keys).Pairwise fun a b => a.toList ≤ b.toList :=
    (List.pairwise_insertionSort _ keys).sublist (List.dedup_sublist _)
  have hne : (sortedKeys keys).Pairwise fun a b => a ≠ b := List.nodup_dedup _
  apply ascending_of_pairwise
  refine (hle.and hne).imp fun {a b} hab => ?_
  refine List.not_le.mp fun hba => hab.2 ?_
  exact Vector.toList_inj.mp (List.le_antisymm hab.1 hba)

theorem sortedKeys_of_ascending {keys : List Bytes32} (h : ascending keys = true) : sortedKeys keys = keys := by
  have hpairwise := pairwise_of_ascending h
  have hle : keys.Pairwise fun a b => a.toList ≤ b.toList := hpairwise.imp fun hlt => List.le_of_lt hlt
  have hnodup : keys.Nodup := by
    refine hpairwise.imp fun {a b} hlt heq => ?_
    rw [heq] at hlt
    exact List.lt_irrefl _ hlt
  rw [sortedKeys, hle.insertionSort_eq, List.dedup_eq_self.mpr hnodup]

theorem mem_sortedKeys {keys : List Bytes32} {key : Bytes32} : key ∈ sortedKeys keys ↔ key ∈ keys := by
  rw [sortedKeys, List.mem_dedup, List.mem_insertionSort]

theorem length_sortedKeys_le (keys : List Bytes32) : (sortedKeys keys).length ≤ keys.length := by
  rw [sortedKeys]
  exact (List.dedup_sublist _).length_le.trans (Nat.le_of_eq (List.length_insertionSort _ _))

end Keys

section Slices

theorem slice_head {bytes xs : List UInt8} {length : ℕ} (hlength : xs.length = length) :
    slice 0 length (xs ++ bytes) = xs := by
  rw [slice, List.drop_zero, List.take_append_of_le_length (Nat.le_of_eq hlength.symm),
    List.take_of_length_le (Nat.le_of_eq hlength)]

theorem slice_tail {bytes xs : List UInt8} {length : ℕ} (hlength : xs.length = length) (first last : ℕ) :
    slice (length + first) (length + last) (xs ++ bytes) = slice first last bytes := by
  subst hlength
  rw [slice, slice, List.take_length_add_append, List.drop_length_add_append]

theorem slice_append_slice {bytes : List UInt8} {first middle last : ℕ} (hfirst : first ≤ middle)
    (hlast : middle ≤ last) : slice first middle bytes ++ slice middle last bytes = slice first last bytes := by
  obtain ⟨k, rfl⟩ := Nat.exists_eq_add_of_le hfirst
  obtain ⟨l, rfl⟩ := Nat.exists_eq_add_of_le hlast
  have hleft : slice first (first + k) bytes = (bytes.drop first).take k := by
    rw [slice, List.drop_take, Nat.add_sub_cancel_left]
  have hright : slice (first + k) (first + k + l) bytes = (bytes.drop (first + k)).take l := by
    rw [slice, List.drop_take, Nat.add_sub_cancel_left]
  have hboth : slice first (first + k + l) bytes = (bytes.drop first).take (k + l) := by
    rw [slice, List.drop_take, Nat.add_assoc, Nat.add_sub_cancel_left]
  rw [hleft, hright, hboth, List.take_add, List.drop_drop]

theorem slice_singleton {bytes : List UInt8} {i : ℕ} (hi : i < bytes.length) :
    slice i (i + 1) bytes = [bytes.getD i 0] := by
  rw [slice, List.drop_take, Nat.add_sub_cancel_left, List.getD_eq_getElem?_getD, List.getElem?_eq_getElem hi,
    Option.getD_some, List.drop_eq_getElem_cons hi, List.take_succ_cons, List.take_zero]

theorem slice_all {bytes : List UInt8} {length : ℕ} (hlength : bytes.length = length) : slice 0 length bytes = bytes := by
  rw [slice, List.drop_zero, List.take_of_length_le (Nat.le_of_eq hlength)]

theorem length_slice {bytes : List UInt8} {first last : ℕ} (hlast : last ≤ bytes.length) :
    (slice first last bytes).length = last - first := by
  rw [slice, List.length_drop, List.length_take, Nat.min_eq_left hlast]

/-- Magic, version, a count and what follows. -/
def header (magic : List UInt8) (version : UInt8) (count : ℕ) : List UInt8 :=
  magic ++ [version] ++ bigEndian 2 count

theorem header_read {magic : List UInt8} (version : UInt8) (count : ℕ) (rest : List UInt8) (hmagic : magic.length = 2) :
    (header magic version count ++ rest).take 2 = magic ∧ (header magic version count ++ rest).getD 2 0 = version ∧
      slice 3 5 (header magic version count ++ rest) = bigEndian 2 count ∧
      (header magic version count ++ rest).drop 5 = rest ∧
      (header magic version count ++ rest).length = 5 + rest.length := by
  obtain ⟨a, b, rfl⟩ := List.length_eq_two.mp hmagic
  obtain ⟨c, d, hcount⟩ := List.length_eq_two.mp (length_bigEndian 2 count)
  rw [header, hcount]
  refine ⟨rfl, rfl, rfl, rfl, ?_⟩
  show rest.length + 5 = 5 + rest.length
  omega

theorem header_of_data {data : List UInt8} (hlength : 5 ≤ data.length) :
    data = header (data.take 2) (data.getD 2 0) (bigEndianValue (slice 3 5 data)) ++ data.drop 5 ∧
      bigEndianValue (slice 3 5 data) < 2 ^ 16 := by
  match data, hlength with
  | a :: b :: c :: d :: e :: rest, _ =>
    have hcount : bigEndian 2 (bigEndianValue [d, e]) = [d, e] := bigEndian_bigEndianValue [d, e]
    have hlt : bigEndianValue [d, e] < 256 ^ 2 := bigEndianValue_lt [d, e]
    refine ⟨?_, hlt⟩
    show a :: b :: c :: d :: e :: rest = [a, b] ++ [c] ++ bigEndian 2 (bigEndianValue [d, e]) ++ rest
    rw [hcount]
    rfl

end Slices

section Members

theorem take_two_append {data : List UInt8} (hlength : 3 ≤ data.length) :
    data = data.take 2 ++ [data.getD 2 0] ++ data.drop 3 := by
  match data, hlength with
  | _ :: _ :: _ :: _, _ => rfl

theorem memberFromScript_ok {script : List UInt8} {member : Bytes32} (h : memberFromScript script = some member) :
    script = memberScript member := by
  unfold memberFromScript at h
  cases hdata : opReturnData script with
  | none =>
    rw [hdata] at h
    cases h
  | some data =>
    rw [hdata] at h
    dsimp only at h
    split_ifs at h with hfailed
    rw [not_or, not_or, not_not, not_not, not_not] at hfailed
    obtain ⟨hlength, hmagic, hversion⟩ := hfailed
    rw [memberDataLen] at hlength
    have hsplit := take_two_append (show 3 ≤ data.length by omega)
    have hkey : (toKey (data.drop 3)).toList = data.drop 3 := toList_toKey (by rw [List.length_drop, hlength])
    rw [← Option.some.inj h, memberScript, hkey, ← hmagic, ← hversion, ← hsplit]
    exact (eq_newOpReturn hdata).1

theorem length_memberData (member : Bytes32) : (memberMagic ++ [memberVersion] ++ member.toList).length = 35 := by
  rw [List.length_append, Vector.length_toList]
  rfl

theorem opReturnData_memberScript (member : Bytes32) :
    opReturnData (memberScript member) = some (memberMagic ++ [memberVersion] ++ member.toList) := by
  have hlength := length_memberData member
  rw [memberScript]
  exact opReturnData_newOpReturn (by omega) (by omega)

theorem memberFromScript_memberScript (member : Bytes32) : memberFromScript (memberScript member) = some member := by
  have hdrop : (memberMagic ++ [memberVersion] ++ member.toList).drop 3 = member.toList := rfl
  have hfailed : ¬((memberMagic ++ [memberVersion] ++ member.toList).length ≠ memberDataLen ∨
      (memberMagic ++ [memberVersion] ++ member.toList).take 2 ≠ memberMagic ∨
      (memberMagic ++ [memberVersion] ++ member.toList).getD 2 0 ≠ memberVersion) := by
    rw [not_or, not_or, not_not, not_not, not_not]
    exact ⟨length_memberData member, rfl, rfl⟩
  unfold memberFromScript
  rw [opReturnData_memberScript]
  dsimp only
  rw [if_neg hfailed, hdrop, toKey_toList]

/-- What a members marker carries. -/
def membersData (members : List Bytes32) (version : UInt8) (rest : List UInt8) : List UInt8 :=
  header initialMembersMagic version members.length ++ (members.flatMap Vector.toList ++ rest)

theorem membersScript_eq {members : List Bytes32} (version : UInt8) (proposer : Option Bytes32)
    (hnonempty : sortedKeys members ≠ []) (hlength : (sortedKeys members).length < 2 ^ 16) :
    membersScript members version proposer =
      .ok (newOpReturn (membersData (sortedKeys members) version (proposer.toList.flatMap Vector.toList))) := by
  unfold membersScript
  dsimp only
  rw [if_neg (by omega), if_neg hnonempty, membersData, header, ← List.append_assoc]

theorem length_membersData (members : List Bytes32) (version : UInt8) (rest : List UInt8) :
    (membersData members version rest).length = 5 + members.length * 32 + rest.length := by
  have hlength := (header_read version members.length (members.flatMap Vector.toList ++ rest)
    (rfl : initialMembersMagic.length = 2)).2.2.2.2
  rw [membersData, hlength, List.length_append, length_flatMap_toList]
  omega

theorem opReturnData_members {members : List Bytes32} {version : UInt8} {rest : List UInt8}
    (hlength : members.length < 2 ^ 16) (hrest : rest.length ≤ 32) :
    opReturnData (newOpReturn (membersData members version rest)) = some (membersData members version rest) := by
  have hdata := length_membersData members version rest
  exact opReturnData_newOpReturn (by omega) (by omega)

/-- How a decoder takes the parts of a members marker. -/
theorem membersData_read {members : List Bytes32} (version : UInt8) (rest : List UInt8)
    (hlength : members.length < 2 ^ 16) :
    (membersData members version rest).take 2 = initialMembersMagic ∧
      (membersData members version rest).getD 2 0 = version ∧
      bigEndianValue (slice 3 5 (membersData members version rest)) = members.length ∧
      keysOf members.length ((membersData members version rest).drop initialMembersHeaderLen) = members ∧
      (membersData members version rest).drop (initialMembersHeaderLen + members.length * 32) = rest := by
  obtain ⟨htake, hversion, hslice, hdrop, -⟩ := header_read version members.length
    (members.flatMap Vector.toList ++ rest) (rfl : initialMembersMagic.length = 2)
  rw [← membersData] at htake hversion hslice hdrop
  refine ⟨htake, hversion, ?_, ?_, ?_⟩
  · rw [hslice, bigEndianValue_bigEndian (by omega)]
  · rw [initialMembersHeaderLen, hdrop, keysOf_flatMap]
  · rw [initialMembersHeaderLen, ← List.drop_drop, hdrop, ← length_flatMap_toList,
      List.drop_append_of_le_length le_rfl, List.drop_length, List.nil_append]

theorem initialMembersFromScript_members {members : List Bytes32} (hnonempty : members ≠ [])
    (hlength : members.length < 2 ^ 16) (hascending : ascending members = true) :
    initialMembersFromScript (newOpReturn (membersData members initialMembersVersion [])) = .ok (some members) := by
  have hdata := length_membersData members initialMembersVersion []
  obtain ⟨htake, hversion, hcount, hkeys, -⟩ := membersData_read initialMembersVersion [] hlength
  have hpos := List.length_pos_iff.mpr hnonempty
  rw [List.length_nil, Nat.add_zero] at hdata
  unfold initialMembersFromScript
  rw [opReturnData_members hlength (by rw [List.length_nil]; omega)]
  dsimp only
  have hheader : ¬(5 + members.length * 32 < initialMembersHeaderLen ∨ initialMembersVersion ≠ initialMembersVersion) := by
    rw [not_or, not_not, initialMembersHeaderLen]
    exact ⟨by omega, rfl⟩
  rw [if_neg (not_not.mpr htake), hversion, hcount, hdata, if_neg hheader,
    if_neg (by rw [initialMembersHeaderLen]; omega), hkeys, if_pos hascending]

theorem migratedMembersProposerFromScript_members {members : List Bytes32} (proposer : Bytes32)
    (hnonempty : members ≠ []) (hlength : members.length < 2 ^ 16) (hascending : ascending members = true) :
    migratedMembersProposerFromScript (newOpReturn (membersData members migratedMembersVersion proposer.toList)) =
      some proposer := by
  have hdata := length_membersData members migratedMembersVersion proposer.toList
  obtain ⟨htake, hversion, hcount, hkeys, hrest⟩ := membersData_read migratedMembersVersion proposer.toList hlength
  have hpos := List.length_pos_iff.mpr hnonempty
  rw [Vector.length_toList] at hdata
  unfold migratedMembersProposerFromScript
  rw [opReturnData_members hlength (Nat.le_of_eq Vector.length_toList)]
  dsimp only
  have hheader : ¬(5 + members.length * 32 + 32 < initialMembersHeaderLen ∨
      migratedMembersVersion ≠ migratedMembersVersion) := by
    rw [not_or, not_not, initialMembersHeaderLen]
    exact ⟨by omega, rfl⟩
  rw [if_neg (not_not.mpr htake), hversion, hcount, hdata, if_neg hheader,
    if_neg (by rw [initialMembersHeaderLen]; omega), hkeys, if_pos hascending, hrest, toKey_toList]

/-- The data of a members marker of which every check passed. -/
theorem membersData_of_data {data : List UInt8} {version : UInt8} {rest : List UInt8}
    (hmagic : data.take 2 = initialMembersMagic) (hheader : initialMembersHeaderLen ≤ data.length)
    (hversion : data.getD 2 0 = version)
    (hlength : initialMembersHeaderLen + bigEndianValue (slice 3 5 data) * 32 ≤ data.length)
    (hrest : data.drop (initialMembersHeaderLen + bigEndianValue (slice 3 5 data) * 32) = rest) :
    data = membersData (keysOf (bigEndianValue (slice 3 5 data)) (data.drop initialMembersHeaderLen)) version rest ∧
      bigEndianValue (slice 3 5 data) < 2 ^ 16 := by
  rw [initialMembersHeaderLen] at hheader hlength hrest
  obtain ⟨hdata, hlt⟩ := header_of_data hheader
  refine ⟨?_, hlt⟩
  have hkeys : bigEndianValue (slice 3 5 data) * 32 ≤ (data.drop 5).length := by
    rw [List.length_drop]
    omega
  rw [initialMembersHeaderLen, membersData, length_keysOf, flatMap_keysOf hkeys, ← hrest, ← List.drop_drop,
    List.take_append_drop, ← hmagic, ← hversion]
  exact hdata

theorem initialMembersFromScript_ok {script : List UInt8} {members : List Bytes32}
    (h : initialMembersFromScript script = .ok (some members)) :
    script = newOpReturn (membersData members initialMembersVersion []) ∧ members ≠ [] ∧ members.length < 2 ^ 16 ∧
      ascending members = true := by
  unfold initialMembersFromScript at h
  cases hscript : opReturnData script with
  | none =>
    rw [hscript] at h
    cases h
  | some data =>
    rw [hscript] at h
    dsimp only at h
    split_ifs at h with hmagic hheader hcount hascending
    · cases h
    rw [not_not] at hmagic
    rw [not_or, not_not] at hheader hcount
    cases h
    have hend : data.drop (initialMembersHeaderLen + bigEndianValue (slice 3 5 data) * 32) = [] :=
      List.drop_of_length_le (Nat.le_of_eq hcount.2)
    obtain ⟨hdata, hlt⟩ := membersData_of_data hmagic (Nat.le_of_not_lt hheader.1) hheader.2
      (Nat.le_of_eq hcount.2.symm) hend
    refine ⟨?_, fun hnil => ?_, by rwa [length_keysOf], hascending⟩
    · rw [← hdata]
      exact (eq_newOpReturn hscript).1
    · have hzero := congrArg List.length hnil
      rw [length_keysOf] at hzero
      exact hcount.1 hzero

theorem migratedMembersProposerFromScript_ok {script : List UInt8} {proposer : Bytes32}
    (h : migratedMembersProposerFromScript script = some proposer) :
    ∃ members, script = newOpReturn (membersData members migratedMembersVersion proposer.toList) ∧ members ≠ [] ∧
      members.length < 2 ^ 16 ∧ ascending members = true := by
  unfold migratedMembersProposerFromScript at h
  cases hscript : opReturnData script with
  | none =>
    rw [hscript] at h
    cases h
  | some data =>
    rw [hscript] at h
    dsimp only at h
    split_ifs at h with hmagic hheader hcount hascending
    rw [not_not] at hmagic
    rw [not_or, not_not] at hheader hcount
    have hend : (data.drop (initialMembersHeaderLen + bigEndianValue (slice 3 5 data) * 32)).length = 32 := by
      rw [List.length_drop, hcount.2]
      omega
    have hproposer : proposer.toList = data.drop (initialMembersHeaderLen + bigEndianValue (slice 3 5 data) * 32) := by
      rw [← Option.some.inj h]
      exact toList_toKey hend
    obtain ⟨hdata, hlt⟩ := membersData_of_data hmagic (Nat.le_of_not_lt hheader.1) hheader.2
      (by rw [hcount.2]; omega) hproposer.symm
    refine ⟨_, ?_, fun hnil => ?_, by rwa [length_keysOf], hascending⟩
    · rw [← hdata]
      exact (eq_newOpReturn hscript).1
    · have hzero := congrArg List.length hnil
      rw [length_keysOf] at hzero
      exact hcount.1 hzero

end Members

section Descriptors

/-- What a descriptor can carry next to the signer in the header. -/
def Recordable (headerSigner : Bytes32) (descriptor : IssuedUtxoDescriptor) : Prop :=
  descriptor.authKind ≤ 2 ∧ (descriptor.signer = none ∨ descriptor.signer = some headerSigner)

theorem length_record (descriptor : IssuedUtxoDescriptor) : (record descriptor).length = descriptorRecordLen := by
  simp only [record, List.length_append, length_bigEndian, Vector.length_toList, List.length_singleton]
  rfl

theorem ofNat_bigEndianValue_bigEndian (n : UInt32) : UInt32.ofNat (bigEndianValue (bigEndian 4 n.toNat)) = n := by
  have hlt := n.toNat_lt
  rw [bigEndianValue_bigEndian (by omega), UInt32.ofNat_toNat]

/-- The parts of a record at their places. -/
theorem record_read {outputIndex reserveOutputIndex owner authData : List UInt8} (authKind kind : UInt8)
    (houtput : outputIndex.length = 4) (hreserve : reserveOutputIndex.length = 4) (howner : owner.length = 32)
    (hauth : authData.length = 32) {bytes : List UInt8}
    (hbytes : bytes = outputIndex ++ (reserveOutputIndex ++ (owner ++ ([authKind] ++ (authData ++ [kind]))))) :
    slice 0 4 bytes = outputIndex ∧ slice 4 8 bytes = reserveOutputIndex ∧ slice 8 40 bytes = owner ∧
      bytes.getD 40 0 = authKind ∧ slice 41 73 bytes = authData ∧ bytes[descriptorTickRecordLen]? = some kind := by
  have hlength : bytes.length = 74 := by
    rw [hbytes]
    simp only [List.length_append, houtput, hreserve, howner, hauth, List.length_singleton]
  have hkind : slice 40 41 bytes = [authKind] := by
    rw [hbytes]
    exact (slice_tail houtput 36 37).trans ((slice_tail hreserve 32 33).trans ((slice_tail howner 0 1).trans (slice_head rfl)))
  have hlast : slice 73 74 bytes = [kind] := by
    rw [hbytes]
    exact (slice_tail houtput 69 70).trans ((slice_tail hreserve 65 66).trans ((slice_tail howner 33 34).trans
      ((slice_tail (rfl : [authKind].length = 1) 32 33).trans ((slice_tail hauth 0 1).trans rfl))))
  have hget := slice_singleton (show 73 < bytes.length by omega)
  rw [slice_singleton (by omega)] at hkind
  refine ⟨?_, ?_, ?_, List.head_eq_of_cons_eq hkind, ?_, ?_⟩
  · rw [hbytes]
    exact slice_head houtput
  · rw [hbytes]
    exact (slice_tail houtput 0 4).trans (slice_head hreserve)
  · rw [hbytes]
    exact (slice_tail houtput 4 36).trans ((slice_tail hreserve 0 32).trans (slice_head howner))
  · rw [hbytes]
    exact (slice_tail houtput 37 69).trans ((slice_tail hreserve 33 65).trans ((slice_tail howner 1 33).trans
      ((slice_tail (rfl : [authKind].length = 1) 0 32).trans (slice_head hauth))))
  · have hkindEq := List.head_eq_of_cons_eq (hget.symm.trans hlast)
    have hinside : 73 < bytes.length := by omega
    rw [List.getD_eq_getElem?_getD, List.getElem?_eq_getElem hinside, Option.getD_some] at hkindEq
    rw [descriptorTickRecordLen, List.getElem?_eq_getElem hinside, hkindEq]

theorem record_eq (descriptor : IssuedUtxoDescriptor) :
    record descriptor = bigEndian 4 descriptor.outputIndex.toNat ++ (bigEndian 4 descriptor.reserveOutputIndex.toNat ++
      (descriptor.accountOwnerPubkey.toList ++ ([descriptor.authKind] ++ (descriptor.authData.toList ++
        [if descriptor.signer.isSome then 1 else 0])))) := by
  rw [record]
  simp only [List.append_assoc]

theorem decodeRecord_record {headerSigner : Bytes32} {descriptor : IssuedUtxoDescriptor}
    (h : Recordable headerSigner descriptor) : decodeRecord headerSigner (record descriptor) = .ok descriptor := by
  obtain ⟨houtput, hreserve, howner, hkind, hauth, hlast⟩ := record_read descriptor.authKind
    (if descriptor.signer.isSome then 1 else 0) (length_bigEndian 4 _) (length_bigEndian 4 _) Vector.length_toList
    Vector.length_toList (record_eq descriptor)
  have hnot : ¬2 < descriptor.authKind := UInt8.not_lt.mpr h.1
  unfold decodeRecord
  dsimp only
  rw [hkind, if_neg hnot, hlast, houtput, hreserve, howner, hauth, ofNat_bigEndianValue_bigEndian,
    ofNat_bigEndianValue_bigEndian, toKey_toList, toKey_toList]
  obtain ⟨outputIndex, reserveOutputIndex, owner, authKind, authData, signer⟩ := descriptor
  rcases h.2 with hsigner | hsigner
  · cases hsigner
    rfl
  · cases hsigner
    rfl

theorem recordSigner_ok {headerSigner : Bytes32} {kind : UInt8} {signer : Option Bytes32}
    (h : recordSigner headerSigner (some kind) = .ok signer) :
    kind = (if signer.isSome then 1 else 0) ∧ (signer = none ∨ signer = some headerSigner) := by
  unfold recordSigner at h
  split at h
  · rename_i heq
    cases heq
  · rename_i heq
    cases h
    exact ⟨Option.some.inj heq, .inl rfl⟩
  · rename_i heq
    cases h
    exact ⟨Option.some.inj heq, .inr rfl⟩
  · cases h

theorem toNat_ofNat_bigEndianValue {bytes : List UInt8} (hlength : bytes.length = 4) :
    bigEndian 4 (UInt32.ofNat (bigEndianValue bytes)).toNat = bytes := by
  have hlt := bigEndianValue_lt bytes
  have hbytes := bigEndian_bigEndianValue bytes
  rw [hlength] at hlt hbytes
  rw [UInt32.toNat_ofNat', Nat.mod_eq_of_lt (by omega), hbytes]

theorem decodeRecord_ok {headerSigner : Bytes32} {bytes : List UInt8} {descriptor : IssuedUtxoDescriptor}
    (hlength : bytes.length = descriptorRecordLen) (h : decodeRecord headerSigner bytes = .ok descriptor) :
    record descriptor = bytes ∧ Recordable headerSigner descriptor := by
  rw [descriptorRecordLen, descriptorTickRecordLen] at hlength
  unfold decodeRecord at h
  dsimp only at h
  split_ifs at h with hkind
  obtain ⟨signer, hsigner, h⟩ := Db.except_bind_ok.mp h
  cases h
  have hinside : 73 < bytes.length := by omega
  rw [descriptorTickRecordLen, List.getElem?_eq_getElem hinside] at hsigner
  obtain ⟨hflag, hsigner⟩ := recordSigner_ok hsigner
  refine ⟨?_, UInt8.not_lt.mp hkind, hsigner⟩
  have hget := slice_singleton hinside
  rw [List.getD_eq_getElem?_getD, List.getElem?_eq_getElem hinside, Option.getD_some] at hget
  rw [record_eq, ← hflag, ← hget, ← slice_singleton (by omega)]
  dsimp only
  rw [toNat_ofNat_bigEndianValue (length_slice (by omega)), toNat_ofNat_bigEndianValue (length_slice (by omega)),
    toList_toKey (length_slice (by omega)), toList_toKey (length_slice (by omega)),
    slice_append_slice (by omega) (by omega), slice_append_slice (by omega) (by omega),
    slice_append_slice (by omega) (by omega), slice_append_slice (by omega) (by omega),
    slice_append_slice (by omega) (by omega), slice_all (by omega)]

theorem sharedSigner_of_recordable {signer : Bytes32} {descriptors : List IssuedUtxoDescriptor}
    (hsigner : signer ≠ noSigner) (h : ∀ descriptor ∈ descriptors, Recordable signer descriptor) :
    sharedSigner descriptors = .ok none ∧ (∀ descriptor ∈ descriptors, descriptor.signer = none) ∨
      sharedSigner descriptors = .ok (some signer) := by
  have hmem : ∀ other ∈ descriptors.filterMap IssuedUtxoDescriptor.signer, other = signer := by
    intro other hother
    obtain ⟨descriptor, hdescriptor, hsome⟩ := List.mem_filterMap.mp hother
    rcases (h descriptor hdescriptor).2 with hnone | hother
    · rw [hnone] at hsome
      cases hsome
    · rw [hother] at hsome
      exact (Option.some.inj hsome).symm
  unfold sharedSigner
  cases hsigners : descriptors.filterMap IssuedUtxoDescriptor.signer with
  | nil =>
    refine .inl ⟨rfl, fun descriptor hdescriptor => ?_⟩
    exact Option.eq_none_iff_forall_ne_some.mpr fun other hother =>
      absurd (List.mem_filterMap.mpr ⟨descriptor, hdescriptor, hother⟩) (by rw [hsigners]; exact List.not_mem_nil)
  | cons first signers =>
    rw [hsigners] at hmem
    obtain rfl := hmem first List.mem_cons_self
    have hany : ¬signers.any (fun other => other != first) = true := by
      intro hany
      obtain ⟨other, hother, hne⟩ := List.any_eq_true.mp hany
      exact bne_iff_ne.mp hne (hmem other (List.mem_cons_of_mem first hother))
    dsimp only
    rw [if_neg hany, if_neg hsigner]
    exact .inr rfl

theorem length_flatMap_record (descriptors : List IssuedUtxoDescriptor) :
    (descriptors.flatMap record).length = descriptors.length * descriptorRecordLen := by
  induction descriptors with
  | nil => rfl
  | cons descriptor descriptors ih =>
    rw [List.flatMap_cons, List.length_append, length_record, ih, List.length_cons, Nat.succ_mul, Nat.add_comm]

theorem mapM_decodeRecord_record {headerSigner : Bytes32} {descriptors : List IssuedUtxoDescriptor}
    (h : ∀ descriptor ∈ descriptors, Recordable headerSigner descriptor) :
    (descriptors.map record).mapM (decodeRecord headerSigner) = .ok descriptors := by
  induction descriptors with
  | nil => rfl
  | cons descriptor descriptors ih =>
    have hrest := ih fun other hother => h other (List.mem_cons_of_mem descriptor hother)
    rw [List.map_cons, List.mapM_cons, decodeRecord_record (h descriptor List.mem_cons_self), hrest]
    rfl

theorem mapM_decodeRecord_ok {headerSigner : Bytes32} {list : List (List UInt8)} :
    ∀ {descriptors : List IssuedUtxoDescriptor}, (∀ bytes ∈ list, bytes.length = descriptorRecordLen) →
      list.mapM (decodeRecord headerSigner) = .ok descriptors →
      descriptors.map record = list ∧ ∀ descriptor ∈ descriptors, Recordable headerSigner descriptor := by
  induction list with
  | nil =>
    intro descriptors _ h
    cases h
    exact ⟨rfl, fun _ hmem => absurd hmem List.not_mem_nil⟩
  | cons bytes list ih =>
    intro descriptors hlength h
    rw [List.mapM_cons] at h
    obtain ⟨descriptor, hdescriptor, h⟩ := Db.except_bind_ok.mp h
    obtain ⟨rest, hrest, h⟩ := Db.except_bind_ok.mp h
    cases h
    obtain ⟨hrecord, hrecordable⟩ := decodeRecord_ok (hlength bytes List.mem_cons_self) hdescriptor
    obtain ⟨hrecords, hall⟩ := ih (fun other hother => hlength other (List.mem_cons_of_mem bytes hother)) hrest
    exact ⟨by rw [List.map_cons, hrecord, hrecords], List.forall_mem_cons.mpr ⟨hrecordable, hall⟩⟩

/-- What a descriptor script carries. -/
def descriptorData (headerSigner : Bytes32) (descriptors : List IssuedUtxoDescriptor) : List UInt8 :=
  header descriptorMagic descriptorVersion descriptors.length ++ (headerSigner.toList ++ descriptors.flatMap record)

theorem length_descriptorData (headerSigner : Bytes32) (descriptors : List IssuedUtxoDescriptor) :
    (descriptorData headerSigner descriptors).length = descriptorHeaderLen + descriptors.length * descriptorRecordLen := by
  have hlength := (header_read descriptorVersion descriptors.length (headerSigner.toList ++ descriptors.flatMap record)
    (rfl : descriptorMagic.length = 2)).2.2.2.2
  rw [descriptorData, hlength, List.length_append, Vector.length_toList, length_flatMap_record, descriptorHeaderLen,
    descriptorPrefixLen]
  omega

theorem descriptorScript_eq {descriptors : List IssuedUtxoDescriptor} {signer : Option Bytes32}
    (hnonempty : descriptors ≠ []) (hlength : descriptors.length ≤ maxIssuedDescriptors)
    (hsigner : sharedSigner descriptors = .ok signer) :
    descriptorScript descriptors = .ok (newOpReturn (descriptorData (signer.getD noSigner) descriptors)) := by
  unfold descriptorScript
  rw [if_neg (by omega), if_neg hnonempty, hsigner]
  show Except.ok (newOpReturn _) = _
  rw [descriptorData, header, ← List.append_assoc]

theorem descriptorsFromScript_descriptorData {descriptors : List IssuedUtxoDescriptor} {signer : Option Bytes32}
    (hnonempty : descriptors ≠ []) (hlength : descriptors.length ≤ maxIssuedDescriptors)
    (hsigner : sharedSigner descriptors = .ok signer)
    (hrecordable : ∀ descriptor ∈ descriptors, Recordable (signer.getD noSigner) descriptor) :
    descriptorsFromScript (newOpReturn (descriptorData (signer.getD noSigner) descriptors)) = .ok (some descriptors) := by
  generalize hheader : signer.getD noSigner = headerSigner at hrecordable ⊢
  have hpos := List.length_pos_iff.mpr hnonempty
  have hdata := length_descriptorData headerSigner descriptors
  obtain ⟨htake, hversion, hslice, hdrop, -⟩ := header_read descriptorVersion descriptors.length
    (headerSigner.toList ++ descriptors.flatMap record) (rfl : descriptorMagic.length = 2)
  rw [← descriptorData] at htake hversion hslice hdrop
  have hprefix : (header descriptorMagic descriptorVersion descriptors.length).length = descriptorPrefixLen := by
    simp only [header, List.length_append, length_bigEndian]
    rfl
  have hkey : slice descriptorPrefixLen descriptorHeaderLen (descriptorData headerSigner descriptors) =
      headerSigner.toList :=
    (slice_tail hprefix 0 32).trans (slice_head Vector.length_toList)
  have hrecords : (descriptorData headerSigner descriptors).drop descriptorHeaderLen = descriptors.flatMap record := by
    rw [descriptorHeaderLen, descriptorPrefixLen, ← List.drop_drop, hdrop,
      List.drop_append_of_le_length (Nat.le_of_eq Vector.length_toList.symm),
      List.drop_of_length_le (Nat.le_of_eq Vector.length_toList), List.nil_append]
  have hchunks : chunks descriptorRecordLen descriptors.length (descriptors.flatMap record) = descriptors.map record := by
    have hsize : ∀ chunk ∈ descriptors.map record, chunk.length = descriptorRecordLen := by
      intro chunk hchunk
      obtain ⟨descriptor, -, rfl⟩ := List.mem_map.mp hchunk
      exact length_record descriptor
    have hflatten := chunks_flatten [] hsize
    rwa [List.length_map, List.append_nil, ← List.flatMap_def] at hflatten
  rw [maxIssuedDescriptors] at hlength
  rw [descriptorHeaderLen, descriptorPrefixLen, descriptorRecordLen, descriptorTickRecordLen] at hdata
  unfold descriptorsFromScript
  rw [opReturnData_newOpReturn (by omega) (by omega)]
  dsimp only
  rw [if_neg (not_not.mpr htake), if_neg (by rw [hdata, descriptorPrefixLen]; omega), hversion]
  show (if _ then _ else (_ >>= _)) = _
  have hcount : ¬(descriptors.length = 0 ∨ maxIssuedDescriptors < descriptors.length ∨
      (descriptorData headerSigner descriptors).length ≠
        descriptorHeaderLen + descriptors.length * descriptorRecordLen) := by
    rw [hdata, maxIssuedDescriptors, descriptorHeaderLen, descriptorPrefixLen, descriptorRecordLen,
      descriptorTickRecordLen]
    omega
  rw [hslice, bigEndianValue_bigEndian (by omega), if_neg hcount, if_pos rfl, hkey, toKey_toList, hrecords, hchunks,
    mapM_decodeRecord_record hrecordable]
  exact Db.except_bind_ok.mpr ⟨descriptors, rfl, Db.except_bind_ok.mpr ⟨signer, hsigner, if_neg (not_not.mpr hheader)⟩⟩

/-- `data[2]` of a script with data -/
def scriptVersion (script : List UInt8) : Option UInt8 := (opReturnData script).map fun data => data.getD 2 0

theorem descriptorsFromScript_magic {script : List UInt8} {descriptors : List IssuedUtxoDescriptor}
    (h : descriptorsFromScript script = .ok (some descriptors)) :
    ∃ data, opReturnData script = some data ∧ data.take 2 = descriptorMagic := by
  unfold descriptorsFromScript at h
  cases hscript : opReturnData script with
  | none =>
    rw [hscript] at h
    cases h
  | some data =>
    rw [hscript] at h
    dsimp only at h
    by_cases hmagic : data.take 2 = descriptorMagic
    · exact ⟨data, rfl, hmagic⟩
    · rw [if_pos hmagic] at h
      cases h

theorem descriptorsFromScript_ok {script : List UInt8} {descriptors : List IssuedUtxoDescriptor}
    (h : descriptorsFromScript script = .ok (some descriptors))
    (hversion : scriptVersion script ≠ some descriptorVersionTicks) :
    ∃ signer, sharedSigner descriptors = .ok signer ∧ descriptors ≠ [] ∧ descriptors.length ≤ maxIssuedDescriptors ∧
      (∀ descriptor ∈ descriptors, Recordable (signer.getD noSigner) descriptor) ∧
      script = newOpReturn (descriptorData (signer.getD noSigner) descriptors) := by
  obtain ⟨data, hscript, hmagic⟩ := descriptorsFromScript_magic h
  rw [scriptVersion, hscript, Option.map_some] at hversion
  unfold descriptorsFromScript at h
  rw [hscript] at h
  dsimp only at h
  rw [if_neg (not_not.mpr hmagic)] at h
  by_cases hprefix : data.length < descriptorPrefixLen
  · rw [if_pos hprefix] at h
    cases h
  rw [if_neg hprefix] at h
  obtain ⟨⟨headerLen, recordLen⟩, hlengths, h⟩ := Db.except_bind_ok.mp h
  unfold descriptorLengths at hlengths
  rw [if_neg fun heq => hversion (congrArg some heq)] at hlengths
  split_ifs at hlengths with htwo
  cases hlengths
  dsimp only at h
  by_cases hcount : bigEndianValue (slice 3 5 data) = 0 ∨ maxIssuedDescriptors < bigEndianValue (slice 3 5 data) ∨
      data.length ≠ descriptorHeaderLen + bigEndianValue (slice 3 5 data) * descriptorRecordLen
  · rw [if_pos hcount] at h
    cases h
  rw [if_neg hcount, if_pos rfl] at h
  rw [not_or, not_or, not_not] at hcount
  obtain ⟨hpos, hmax, hlength⟩ := hcount
  obtain ⟨decoded, hdecoded, h⟩ := Db.except_bind_ok.mp h
  obtain ⟨signer, hsigner, h⟩ := Db.except_bind_ok.mp h
  by_cases hheader : signer.getD noSigner = toKey (slice descriptorPrefixLen descriptorHeaderLen data)
  · rw [if_neg (not_not.mpr hheader)] at h
    cases h
    rw [descriptorHeaderLen, descriptorPrefixLen] at hlength
    have hfive : 5 ≤ data.length := by omega
    obtain ⟨hdata, -⟩ := header_of_data hfive
    have hsize : ∀ bytes ∈ chunks descriptorRecordLen (bigEndianValue (slice 3 5 data)) (data.drop descriptorHeaderLen),
        bytes.length = descriptorRecordLen := by
      intro bytes hbytes
      refine length_of_mem_chunks ?_ hbytes
      rw [List.length_drop, descriptorHeaderLen, descriptorPrefixLen]
      omega
    obtain ⟨hrecords, hrecordable⟩ := mapM_decodeRecord_ok hsize hdecoded
    have hdecodedLength : descriptors.length = bigEndianValue (slice 3 5 data) := by
      have hchunks := congrArg List.length hrecords
      rwa [List.length_map, length_chunks] at hchunks
    have hflat : descriptors.flatMap record = data.drop descriptorHeaderLen := by
      rw [List.flatMap_def, hrecords, flatten_chunks, List.take_of_length_le]
      rw [List.length_drop, descriptorHeaderLen, descriptorPrefixLen]
      omega
    have hkey : (toKey (slice descriptorPrefixLen descriptorHeaderLen data)).toList = (data.drop 5).take 32 := by
      rw [toList_toKey (length_slice (by rw [descriptorHeaderLen, descriptorPrefixLen]; omega)), slice, List.drop_take]
      rfl
    have hrest : (data.drop 5).take 32 ++ data.drop descriptorHeaderLen = data.drop 5 := by
      rw [descriptorHeaderLen, descriptorPrefixLen, ← List.drop_drop, List.take_append_drop]
    refine ⟨signer, hsigner, fun hnil => ?_, by omega, by rwa [hheader], ?_⟩
    · rw [hnil] at hdecodedLength
      exact hpos hdecodedLength.symm
    · rw [hheader, descriptorData, hkey, hflat, hrest, hdecodedLength, ← hmagic, ← htwo, ← hdata]
      exact (eq_newOpReturn hscript).1
  · rw [if_pos hheader] at h
    cases h

end Descriptors

section Codecs

/-- What a script can be read as. -/
inductive Marker where
  | descriptors (descriptors : List IssuedUtxoDescriptor)
  | initialMembers (members : List Bytes32)
  | migratedMembers (proposer : Bytes32)
  | member (member : Bytes32)

def Decodes (script : List UInt8) : Marker → Prop
  | .descriptors descriptors => descriptorsFromScript script = .ok (some descriptors)
  | .initialMembers members => initialMembersFromScript script = .ok (some members)
  | .migratedMembers proposer => migratedMembersProposerFromScript script = some proposer
  | .member member => memberFromScript script = some member

/-- An encoder writes the script for the value; the members of a migration are not read back. -/
def Encodes (script : List UInt8) : Marker → Prop
  | .descriptors descriptors => descriptorScript descriptors = .ok script
  | .initialMembers members => initialMembersScript members = .ok script
  | .migratedMembers proposer => ∃ members, migratedMembersScript members proposer = .ok script
  | .member member => memberScript member = script

def Marker.magic : Marker → List UInt8
  | .descriptors _ => descriptorMagic
  | .initialMembers _ => initialMembersMagic
  | .migratedMembers _ => initialMembersMagic
  | .member _ => memberMagic

theorem magic_of_decodes {script : List UInt8} {marker : Marker} (h : Decodes script marker) :
    (opReturnData script).map (List.take 2) = some marker.magic := by
  cases marker with
  | descriptors descriptors =>
    obtain ⟨data, hscript, hmagic⟩ := descriptorsFromScript_magic h
    rw [hscript, Option.map_some, hmagic]
    rfl
  | initialMembers members =>
    obtain ⟨rfl, -, hlength, -⟩ := initialMembersFromScript_ok h
    rw [opReturnData_members hlength (by rw [List.length_nil]; omega)]
    exact congrArg some (membersData_read initialMembersVersion [] hlength).1
  | migratedMembers proposer =>
    obtain ⟨members, rfl, -, hlength, -⟩ := migratedMembersProposerFromScript_ok h
    rw [opReturnData_members hlength (Nat.le_of_eq Vector.length_toList)]
    exact congrArg some (membersData_read migratedMembersVersion proposer.toList hlength).1
  | member member =>
    rw [memberFromScript_ok h, opReturnData_memberScript]
    rfl

theorem version_of_initialMembers {script : List UInt8} {members : List Bytes32}
    (h : Decodes script (.initialMembers members)) : scriptVersion script = some initialMembersVersion := by
  obtain ⟨rfl, -, hlength, -⟩ := initialMembersFromScript_ok h
  rw [scriptVersion, opReturnData_members hlength (by rw [List.length_nil]; omega)]
  exact congrArg some (membersData_read initialMembersVersion [] hlength).2.1

theorem version_of_migratedMembers {script : List UInt8} {proposer : Bytes32}
    (h : Decodes script (.migratedMembers proposer)) : scriptVersion script = some migratedMembersVersion := by
  obtain ⟨members, rfl, -, hlength, -⟩ := migratedMembersProposerFromScript_ok h
  rw [scriptVersion, opReturnData_members hlength (Nat.le_of_eq Vector.length_toList)]
  exact congrArg some (membersData_read migratedMembersVersion proposer.toList hlength).2.1

theorem magics_ne : descriptorMagic ≠ initialMembersMagic ∧ descriptorMagic ≠ memberMagic ∧
    initialMembersMagic ≠ memberMagic := by
  decide

theorem decodes_unique {script : List UInt8} {marker other : Marker} (h : Decodes script marker)
    (hother : Decodes script other) : marker = other := by
  have hmagic : marker.magic = other.magic :=
    Option.some.inj ((magic_of_decodes h).symm.trans (magic_of_decodes hother))
  have hversion {members : List Bytes32} {proposer : Bytes32} (hinitial : Decodes script (.initialMembers members))
      (hmigrated : Decodes script (.migratedMembers proposer)) : False := by
    have hone := version_of_initialMembers hinitial
    rw [version_of_migratedMembers hmigrated] at hone
    exact absurd hone (by decide)
  cases marker with
  | descriptors descriptors =>
    cases other with
    | descriptors others =>
      cases (show Except.ok (some descriptors) = Except.ok (some others) from h.symm.trans hother)
      rfl
    | initialMembers members => exact absurd hmagic magics_ne.1
    | migratedMembers proposer => exact absurd hmagic magics_ne.1
    | member member => exact absurd hmagic magics_ne.2.1
  | initialMembers members =>
    cases other with
    | descriptors descriptors => exact absurd hmagic magics_ne.1.symm
    | initialMembers others =>
      cases (show Except.ok (some members) = Except.ok (some others) from h.symm.trans hother)
      rfl
    | migratedMembers proposer => exact (hversion h hother).elim
    | member member => exact absurd hmagic magics_ne.2.2
  | migratedMembers proposer =>
    cases other with
    | descriptors descriptors => exact absurd hmagic magics_ne.1.symm
    | initialMembers members => exact (hversion hother h).elim
    | migratedMembers others => exact congrArg Marker.migratedMembers (Option.some.inj (h.symm.trans hother))
    | member member => exact absurd hmagic magics_ne.2.2
  | member member =>
    cases other with
    | descriptors descriptors => exact absurd hmagic magics_ne.2.1.symm
    | initialMembers members => exact absurd hmagic magics_ne.2.2.symm
    | migratedMembers proposer => exact absurd hmagic magics_ne.2.2.symm
    | member others => exact congrArg Marker.member (Option.some.inj (h.symm.trans hother))

/-- Descriptors that one issuance can announce. -/
structure Announceable (descriptors : List IssuedUtxoDescriptor) : Prop where
  nonempty : descriptors ≠ []
  count : descriptors.length ≤ maxIssuedDescriptors
  signer : ∃ signer ≠ noSigner, ∀ descriptor ∈ descriptors, Recordable signer descriptor

theorem descriptors_round_trip {descriptors : List IssuedUtxoDescriptor} (h : Announceable descriptors) :
    ∃ script, descriptorScript descriptors = .ok script ∧ Decodes script (.descriptors descriptors) := by
  obtain ⟨hnonempty, hcount, signer, hsigner, hrecordable⟩ := h
  rcases sharedSigner_of_recordable hsigner hrecordable with ⟨hshared, hnone⟩ | hshared
  · refine ⟨_, descriptorScript_eq hnonempty hcount hshared, ?_⟩
    exact descriptorsFromScript_descriptorData hnonempty hcount hshared fun descriptor hdescriptor =>
      ⟨(hrecordable descriptor hdescriptor).1, .inl (hnone descriptor hdescriptor)⟩
  · exact ⟨_, descriptorScript_eq hnonempty hcount hshared,
      descriptorsFromScript_descriptorData hnonempty hcount hshared hrecordable⟩

theorem sortedKeys_bounds {members : List Bytes32} (hnonempty : members ≠ []) (hlength : members.length < 2 ^ 16) :
    sortedKeys members ≠ [] ∧ (sortedKeys members).length < 2 ^ 16 := by
  refine ⟨fun hnil => ?_, Nat.lt_of_le_of_lt (length_sortedKeys_le members) hlength⟩
  obtain ⟨member, hmember⟩ := List.exists_mem_of_ne_nil members hnonempty
  have hsorted := mem_sortedKeys.mpr hmember
  rw [hnil] at hsorted
  exact List.not_mem_nil hsorted

theorem initialMembers_round_trip {members : List Bytes32} (hnonempty : members ≠ [])
    (hlength : members.length < 2 ^ 16) :
    ∃ script, initialMembersScript members = .ok script ∧ Decodes script (.initialMembers (sortedKeys members)) := by
  obtain ⟨hsorted, hsortedLength⟩ := sortedKeys_bounds hnonempty hlength
  exact ⟨_, membersScript_eq initialMembersVersion none hsorted hsortedLength,
    initialMembersFromScript_members hsorted hsortedLength (ascending_sortedKeys members)⟩

theorem migratedMembersScript_eq {members : List Bytes32} (proposer : Bytes32) (hnonempty : sortedKeys members ≠ [])
    (hlength : (sortedKeys members).length < 2 ^ 16) :
    migratedMembersScript members proposer =
      .ok (newOpReturn (membersData (sortedKeys members) migratedMembersVersion proposer.toList)) := by
  have hscript := membersScript_eq migratedMembersVersion (some proposer) hnonempty hlength
  rwa [Option.toList_some, List.flatMap_singleton] at hscript

theorem migratedMembers_round_trip {members : List Bytes32} (proposer : Bytes32) (hnonempty : members ≠ [])
    (hlength : members.length < 2 ^ 16) :
    ∃ script, migratedMembersScript members proposer = .ok script ∧ Decodes script (.migratedMembers proposer) := by
  obtain ⟨hsorted, hsortedLength⟩ := sortedKeys_bounds hnonempty hlength
  exact ⟨_, migratedMembersScript_eq proposer hsorted hsortedLength,
    migratedMembersProposerFromScript_members proposer hsorted hsortedLength (ascending_sortedKeys members)⟩

/-- What a decoder accepts is what its encoder writes, descriptors of the old version apart. -/
theorem encodes_of_decodes {script : List UInt8} {marker : Marker} (h : Decodes script marker)
    (hversion : marker.magic = descriptorMagic → scriptVersion script ≠ some descriptorVersionTicks) :
    Encodes script marker := by
  cases marker with
  | descriptors descriptors =>
    obtain ⟨signer, hsigner, hnonempty, hcount, -, rfl⟩ := descriptorsFromScript_ok h (hversion rfl)
    exact descriptorScript_eq hnonempty hcount hsigner
  | initialMembers members =>
    obtain ⟨rfl, hnonempty, hlength, hascending⟩ := initialMembersFromScript_ok h
    have hsorted := sortedKeys_of_ascending hascending
    have hscript := membersScript_eq initialMembersVersion none (hsorted.symm ▸ hnonempty) (hsorted.symm ▸ hlength)
    rwa [hsorted] at hscript
  | migratedMembers proposer =>
    obtain ⟨members, rfl, hnonempty, hlength, hascending⟩ := migratedMembersProposerFromScript_ok h
    have hsorted := sortedKeys_of_ascending hascending
    have hscript := migratedMembersScript_eq proposer (hsorted.symm ▸ hnonempty) (hsorted.symm ▸ hlength)
    rw [hsorted] at hscript
    exact ⟨members, hscript⟩
  | member member => exact (memberFromScript_ok h).symm

/-- The four formats do not overlap, every value is read back, and no script but an encoder's is read. -/
theorem markers_unambiguous :
    (∀ script marker other, Decodes script marker → Decodes script other → marker = other) ∧
      (∀ descriptors, Announceable descriptors →
        ∃ script, descriptorScript descriptors = .ok script ∧ Decodes script (.descriptors descriptors)) ∧
      (∀ members proposer, members ≠ [] → members.length < 2 ^ 16 →
        (∃ script, initialMembersScript members = .ok script ∧ Decodes script (.initialMembers (sortedKeys members))) ∧
          ∃ script, migratedMembersScript members proposer = .ok script ∧
            Decodes script (.migratedMembers proposer)) ∧
      (∀ member, Decodes (memberScript member) (.member member)) ∧
      ∀ script marker, Decodes script marker →
        (marker.magic = descriptorMagic → scriptVersion script ≠ some descriptorVersionTicks) →
        Encodes script marker := by
  refine ⟨fun script marker other => decodes_unique, fun descriptors => descriptors_round_trip, ?_,
    memberFromScript_memberScript, fun script marker => encodes_of_decodes⟩
  intro members proposer hnonempty hlength
  exact ⟨initialMembers_round_trip hnonempty hlength, migratedMembers_round_trip proposer hnonempty hlength⟩

end Codecs

end Markers

end PriceOracle
