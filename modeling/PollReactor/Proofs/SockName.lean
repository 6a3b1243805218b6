import Mathlib.Data.List.GetD
import PollReactor.Net.SockName
import PollReactor.Proofs.Digits

namespace PollReactor.Net

open Bytes (bigEndian littleEndian ofBigEndian ofLittleEndian)

/-- An address without what only IPv6 has besides address and port. -/
def SocketAddr.plain : SocketAddr → SocketAddr
  | v4 ip port => v4 ip port
  | v6 ip port _ _ => v6 ip port 0 0

namespace SockNameFormat

variable {name xs ys : Bytes} {i k n : Nat}

@[simp]
theorem length_field (name : Bytes) (i n : Nat) : (field name i n).length = n := by
  rw [field, List.length_map, List.length_range]

theorem getD_field (h : k < n) : (field name i n).getD k 0 = name.getD (i + k) 0 := by
  simp [field, List.getD_eq_getElem?_getD, h]

theorem field_field (h : k + n ≤ i) : field (field name 0 i) k n = field name k n := by
  refine List.map_congr_left fun j hj ↦ ?_
  rw [List.mem_range] at hj
  rw [getD_field (by omega), Nat.zero_add]

theorem field_add (name : Bytes) (i m n : Nat) :
    field name i (m + n) = field name i m ++ field name (i + m) n := by
  simp only [field, List.range_add, List.map_append, List.map_map]
  congr 1
  refine List.map_congr_left fun j _ ↦ ?_
  rw [Function.comp_apply, Nat.add_assoc]

theorem field_skip (h : xs.length ≤ i) : field (xs ++ ys) i n = field ys (i - xs.length) n := by
  refine List.map_congr_left fun j _ ↦ ?_
  rw [List.getD_append_right _ _ _ _ (by omega)]
  congr 1
  omega

theorem field_front (h : xs.length = n) : field (xs ++ ys) 0 n = xs := by
  subst h
  apply List.ext_getElem (length_field ..)
  intro j hj hj'
  simp [field, List.getElem?_append_left hj', hj']

theorem field_flatMap {α : Type} {f : α → Bytes} (hf : ∀ x, (f x).length = k) {l : List α}
    (hi : i < l.length) (ys : Bytes) : field (l.flatMap f ++ ys) (k * i) k = f l[i] := by
  induction l generalizing i with
  | nil => cases hi
  | cons x l ih =>
    rw [List.flatMap_cons, List.append_assoc]
    cases i with
    | zero => exact field_front (hf x)
    | succ i =>
      have hskip : k * (i + 1) - (f x).length = k * i := by
        rw [hf, Nat.mul_succ, Nat.add_sub_cancel]
      rw [field_skip (by rw [hf]; exact Nat.le_mul_of_pos_right k i.succ_pos), hskip]
      exact ih (Nat.lt_of_succ_lt_succ hi)

/-- The bytes of a storage, of which a name fills the first ones. -/
def storageBytes : Nat := 128

/-- The storage of an address, zero behind its name. -/
def storage (f : SockNameFormat) (a : SocketAddr) : Bytes := field (f.encode a) 0 storageBytes

theorem familyOf_storage (f : SockNameFormat) (a : SocketAddr) :
    familyOf (f.storage a) = familyOf (f.encode a) :=
  congrArg ofLittleEndian (field_field (by decide))

theorem decode_storage (f g : SockNameFormat) (a : SocketAddr) :
    g.decode (f.storage a) = g.decode (f.encode a) := by
  have hbyte {k : Nat} (h : k < storageBytes) : (f.storage a).getD k 0 = (f.encode a).getD k 0 := by
    rw [storage, getD_field h, Nat.zero_add]
  have hfield {k n : Nat} (h : k + n ≤ storageBytes) :
      field (f.storage a) k n = field (f.encode a) k n := field_field h
  have hip : ipv6Of (f.storage a) = ipv6Of (f.encode a) := by
    refine congrArg Ipv6.mk (congrArg Vector.ofFn (funext fun i ↦ ?_))
    have hi : 8 + 2 * i.val + 2 ≤ storageBytes := by
      unfold storageBytes
      omega
    rw [hfield hi]
  unfold decode
  rw [familyOf_storage, hip]
  simp only [portOf, wordOf, ipv4Of]
  rw [hfield (by decide), hfield (by decide), hfield (by decide), hbyte (by decide),
    hbyte (by decide), hbyte (by decide), hbyte (by decide)]

/-- Families have different numbers of two bytes. -/
structure Sound (f : SockNameFormat) : Prop where
  inet_lt : f.inet < 256 ^ 2
  inet6_lt : f.inet6 < 256 ^ 2
  apart : f.inet ≠ f.inet6

theorem posix_sound : posix.Sound := ⟨by decide, by decide, by decide⟩

theorem winsock_sound : winsock.Sound := ⟨by decide, by decide, by decide⟩

/-- What is left of an address that was written by `f` and read back by `g`. -/
def carried (f g : SockNameFormat) : SocketAddr → SocketAddr
  | .v4 ip port => .v4 ip port
  | .v6 ip port flow scope =>
    if g.readsFlowAndScope then .v6 ip port (if f.writesFlow then flow else 0) scope
    else .v6 ip port 0 0

variable {f g : SockNameFormat}

theorem familyOf_encode (hf : f.Sound) (a : SocketAddr) :
    familyOf (f.encode a) = f.family a := by
  have hfront {n : Nat} (hn : n < 256 ^ 2) (rest : Bytes) :
      familyOf (littleEndian 2 n ++ rest) = n := by
    rw [familyOf, field_front (Bytes.length_littleEndian 2 n),
      Bytes.ofLittleEndian_littleEndian_of_lt hn]
  cases a with
  | v4 ip port =>
    simp only [encode, List.append_assoc]
    exact hfront hf.inet_lt _
  | v6 ip port flow scope =>
    simp only [encode, List.append_assoc]
    exact hfront hf.inet6_lt _

theorem portOf_append (hx : xs.length = 2) (port : UInt16) (ys : Bytes) :
    portOf (xs ++ (bigEndian 2 port.toNat ++ ys)) = port := by
  rw [portOf, field_skip (Nat.le_of_eq hx), hx, field_front (Bytes.length_bigEndian 2 _),
    Bytes.ofBigEndian_bigEndian_of_lt port.toNat_lt, UInt16.ofNat_toNat]

theorem wordOf_append (hx : xs.length = i) (n : UInt32) (ys : Bytes) :
    wordOf (xs ++ (littleEndian 4 n.toNat ++ ys)) i = n := by
  rw [wordOf, field_skip (Nat.le_of_eq hx), hx, Nat.sub_self,
    field_front (Bytes.length_littleEndian 4 _),
    Bytes.ofLittleEndian_littleEndian_of_lt n.toNat_lt, UInt32.ofNat_toNat]

theorem ipv6Of_append (hx : xs.length = 8) (ip : Ipv6) (ys : Bytes) :
    ipv6Of (xs ++ (ip.groups.toList.flatMap (fun g ↦ bigEndian 2 g.toNat) ++ ys)) = ip := by
  rw [ipv6Of]
  congr 1
  apply Vector.ext
  intro i hi
  have hlen : i < ip.groups.toList.length := by rw [Vector.length_toList]; exact hi
  rw [Vector.getElem_ofFn, field_skip (by rw [hx]; exact Nat.le_add_right 8 _), hx,
    Nat.add_sub_cancel_left, field_flatMap (fun g ↦ Bytes.length_bigEndian 2 _) hlen,
    Bytes.ofBigEndian_bigEndian_of_lt (UInt16.toNat_lt _), UInt16.ofNat_toNat,
    Vector.getElem_toList]

theorem ipv4Of_append (hx : xs.length = 4) (ip : Ipv4) (ys : Bytes) :
    ipv4Of (xs ++ ([ip.a, ip.b, ip.c, ip.d] ++ ys)) = ip := by
  have hbyte (k : Nat) : (xs ++ ([ip.a, ip.b, ip.c, ip.d] ++ ys)).getD (4 + k) 0 =
      ([ip.a, ip.b, ip.c, ip.d] ++ ys).getD k 0 := by
    rw [List.getD_append_right _ _ _ _ (by omega), hx, Nat.add_sub_cancel_left]
  rw [ipv4Of, hbyte 0, hbyte 1, hbyte 2, hbyte 3]
  rfl

theorem length_groups (ip : Ipv6) :
    (ip.groups.toList.flatMap fun g ↦ bigEndian 2 g.toNat).length = 16 := by
  simp [List.length_flatMap, List.map_const']

theorem decode_encode_v4 (hf : f.Sound) (h4 : g.inet = f.inet) (ip : Ipv4) (port : UInt16) :
    g.decode (f.encode (.v4 ip port)) = .ok (.v4 ip port) := by
  have hfamily : familyOf (f.encode (.v4 ip port)) = g.inet := (familyOf_encode hf _).trans h4.symm
  have hport : portOf (f.encode (.v4 ip port)) = port := by
    simp only [encode, List.append_assoc]
    exact portOf_append (Bytes.length_littleEndian 2 _) port _
  have hip : ipv4Of (f.encode (.v4 ip port)) = ip := by
    rw [encode, List.append_assoc]
    exact ipv4Of_append (by simp) ip _
  rw [decode, if_pos hfamily, hport, hip]

theorem decode_encode_v6 (hf : f.Sound) (h4 : g.inet = f.inet) (h6 : g.inet6 = f.inet6) (ip : Ipv6)
    (port : UInt16) (flow scope : UInt32) :
    g.decode (f.encode (.v6 ip port flow scope)) = .ok (f.carried g (.v6 ip port flow scope)) := by
  let name := f.encode (.v6 ip port flow scope)
  have hfamily : familyOf name = g.inet6 := (familyOf_encode hf _).trans h6.symm
  have hother : familyOf name ≠ g.inet := by
    rw [hfamily, h4, h6]
    exact Ne.symm hf.apart
  have hport : portOf name = port := by
    simp only [name, encode, List.append_assoc]
    exact portOf_append (Bytes.length_littleEndian 2 _) port _
  have hflow : wordOf name 4 = if f.writesFlow then flow else 0 := by
    have hword : (if f.writesFlow then flow.toNat else 0) =
        (if f.writesFlow then flow else 0).toNat := by split <;> rfl
    simp only [name, encode, hword, List.append_assoc]
    rw [← List.append_assoc]
    exact wordOf_append (by simp) _ _
  have hip : ipv6Of name = ip := by
    simp only [name]
    rw [encode, List.append_assoc]
    exact ipv6Of_append (by simp) ip _
  have hscope : wordOf name 24 = scope := by
    simp only [name]
    rw [encode, ← List.append_nil (littleEndian 4 scope.toNat)]
    refine wordOf_append ?_ scope []
    rw [List.length_append, length_groups]
    simp
  change g.decode name = _
  rw [decode, if_neg hother, if_pos hfamily, hport, hip, hflow, hscope, carried]
  split <;> rfl

theorem decode_encode (hf : f.Sound) (h4 : g.inet = f.inet) (h6 : g.inet6 = f.inet6)
    (a : SocketAddr) : g.decode (f.encode a) = .ok (f.carried g a) := by
  cases a with
  | v4 ip port => exact decode_encode_v4 hf h4 ip port
  | v6 ip port flow scope => exact decode_encode_v6 hf h4 h6 ip port flow scope

def nameBytes : SocketAddr → Nat
  | .v4 .. => 16
  | .v6 .. => 28

/-- How many of these bytes say something; the others are padding. -/
def usedBytes : SocketAddr → Nat
  | .v4 .. => 8
  | .v6 .. => 28

theorem length_encode (f : SockNameFormat) (a : SocketAddr) :
    (f.encode a).length = nameBytes a := by
  cases a with
  | v4 ip port => simp [encode, nameBytes]
  | v6 ip port flow scope =>
    rw [encode, List.length_append, List.length_append, length_groups]
    simp [nameBytes]

theorem bigEndian_ofField (s : Bytes) (i : Nat) :
    bigEndian 2 (UInt16.ofNat (ofBigEndian (field s i 2))).toNat = field s i 2 := by
  have hlt : ofBigEndian (field s i 2) < 256 ^ (field s i 2).length := Bytes.ofBigEndian_lt _
  rw [length_field] at hlt
  rw [UInt16.toNat_ofNat_of_lt' hlt]
  have hback := Bytes.bigEndian_ofBigEndian (field s i 2)
  rwa [length_field] at hback

theorem bigEndian_portOf (s : Bytes) : bigEndian 2 (portOf s).toNat = field s 2 2 :=
  bigEndian_ofField s 2

theorem littleEndian_wordOf (s : Bytes) (i : Nat) :
    littleEndian 4 (wordOf s i).toNat = field s i 4 := by
  have hlt : ofLittleEndian (field s i 4) < 256 ^ (field s i 4).length := Bytes.ofLittleEndian_lt _
  rw [length_field] at hlt
  rw [wordOf, UInt32.toNat_ofNat_of_lt' hlt]
  have hback := Bytes.littleEndian_ofLittleEndian (field s i 4)
  rwa [length_field] at hback

theorem littleEndian_familyOf (s : Bytes) : littleEndian 2 (familyOf s) = field s 0 2 := by
  have hback := Bytes.littleEndian_ofLittleEndian (field s 0 2)
  rwa [length_field] at hback

theorem octets_ipv4Of (s : Bytes) :
    [(ipv4Of s).a, (ipv4Of s).b, (ipv4Of s).c, (ipv4Of s).d] = field s 4 4 := rfl

theorem field_pairs (s : Bytes) (i n : Nat) :
    (List.range n).flatMap (fun k ↦ field s (i + 2 * k) 2) = field s i (2 * n) := by
  induction n with
  | zero => rfl
  | succ n ih =>
    rw [List.range_succ, List.flatMap_append, ih, List.flatMap_singleton, ← field_add, Nat.mul_succ]

theorem groups_ipv6Of (s : Bytes) :
    (ipv6Of s).groups.toList.flatMap (fun g ↦ bigEndian 2 g.toNat) = field s 8 16 := by
  have hgroups : (ipv6Of s).groups.toList =
      (List.range 8).map fun i ↦ UInt16.ofNat (ofBigEndian (field s (8 + 2 * i) 2)) := rfl
  rw [hgroups, List.flatMap_map, ← field_pairs s 8 8]
  congr 1
  exact funext fun i ↦ bigEndian_ofField s (8 + 2 * i)

theorem decode_of_inet {s : Bytes} (h : familyOf s = f.inet) :
    f.decode s = .ok (.v4 (ipv4Of s) (portOf s)) :=
  if_pos h

theorem decode_of_inet6 (hf : f.Sound) {s : Bytes} (h : familyOf s = f.inet6) :
    f.decode s = .ok (.v6 (ipv6Of s) (portOf s) (if f.readsFlowAndScope then wordOf s 4 else 0)
      (if f.readsFlowAndScope then wordOf s 24 else 0)) := by
  have hother : familyOf s ≠ f.inet := by
    rw [h]
    exact Ne.symm hf.apart
  rw [decode, if_neg hother, if_pos h]
  split <;> rfl

theorem decode_of_foreign {s : Bytes} (h4 : familyOf s ≠ f.inet) (h6 : familyOf s ≠ f.inet6) :
    f.decode s = .error (.custom .invalidData f.unsupported) := by
  rw [decode, if_neg h4, if_neg h6]

theorem encode_v4_of {s : Bytes} (h : familyOf s = f.inet) :
    f.encode (.v4 (ipv4Of s) (portOf s)) = field s 0 8 ++ List.replicate 8 0 := by
  have hfields : field s 0 8 = field s 0 2 ++ field s 2 2 ++ field s 4 4 := by
    rw [← field_add, ← field_add]
  rw [encode, octets_ipv4Of, bigEndian_portOf, ← h, littleEndian_familyOf, hfields]

theorem encode_v6_of (hwrites : f.writesFlow = true) {s : Bytes} (h : familyOf s = f.inet6) :
    f.encode (.v6 (ipv6Of s) (portOf s) (wordOf s 4) (wordOf s 24)) = field s 0 28 := by
  have hfields : field s 0 28 =
      field s 0 2 ++ field s 2 2 ++ field s 4 4 ++ field s 8 16 ++ field s 24 4 := by
    rw [← field_add, ← field_add, ← field_add, ← field_add]
  rw [encode, if_pos hwrites, littleEndian_wordOf, littleEndian_wordOf, bigEndian_portOf,
    groups_ipv6Of, ← h, littleEndian_familyOf, hfields]

/-- Addresses come back from their storage, what a storage says comes back from its address, and
there is no third kind of storage but one that is refused. -/
structure Lossless (f : SockNameFormat) : Prop where
  back (a : SocketAddr) : f.decode (f.storage a) = .ok a
  family (a : SocketAddr) : familyOf (f.storage a) = f.family a
  length (a : SocketAddr) : (f.encode a).length = nameBytes a
  known (s : Bytes) : familyOf s = f.inet ∨ familyOf s = f.inet6 → ∃ a, f.decode s = .ok a
  forth (s : Bytes) (a : SocketAddr) : f.decode s = .ok a → familyOf s = f.family a ∧
    f.encode a = field s 0 (usedBytes a) ++ List.replicate (nameBytes a - usedBytes a) 0
  foreign (s : Bytes) : familyOf s ≠ f.inet → familyOf s ≠ f.inet6 →
    f.decode s = .error (.custom .invalidData f.unsupported)

theorem Sound.lossless (hf : f.Sound) (hwrites : f.writesFlow = true)
    (hreads : f.readsFlowAndScope = true) : f.Lossless where
  back a := by
    have hcarried : f.carried f a = a := by
      cases a with
      | v4 => rfl
      | v6 => rw [carried, if_pos hreads, if_pos hwrites]
    rw [decode_storage, decode_encode hf rfl rfl, hcarried]
  family a := (familyOf_storage f a).trans (familyOf_encode hf a)
  length := f.length_encode
  known s h := by
    rcases h with h | h
    · exact ⟨_, decode_of_inet h⟩
    · exact ⟨_, decode_of_inet6 hf h⟩
  forth s a h := by
    by_cases h4 : familyOf s = f.inet
    · cases (decode_of_inet h4).symm.trans h
      exact ⟨h4, encode_v4_of h4⟩
    by_cases h6 : familyOf s = f.inet6
    · cases (decode_of_inet6 hf h6).symm.trans h
      rw [if_pos hreads, if_pos hreads]
      refine ⟨h6, (encode_v6_of hwrites h6).trans ?_⟩
      exact (List.append_nil _).symm
    · cases (decode_of_foreign h4 h6).symm.trans h
  foreign s := decode_of_foreign

/-- A POSIX name and its address say the same. -/
theorem posix_lossless : posix.Lossless :=
  posix_sound.lossless rfl rfl

/-- A reader of everything, for the families of `f`. -/
def readingAll (f : SockNameFormat) : SockNameFormat := { f with readsFlowAndScope := true }

theorem carried_plain (hreads : g.readsFlowAndScope = false) (a : SocketAddr) :
    f.carried g a = a.plain := by
  cases a with
  | v4 => rfl
  | v6 => simp [carried, hreads, SocketAddr.plain]

theorem decode_readingAll (hreads : f.readsFlowAndScope = false) (s : Bytes) :
    f.decode s = (f.readingAll.decode s).map SocketAddr.plain := by
  unfold decode
  simp only [readingAll, hreads]
  split
  · rfl
  · split <;> rfl

/-- Of every Windows storage, own or from the system, all is read but flow information and scope. So
an own storage gives its address back if and only if the address has neither. The scope is in it. -/
theorem winsock_reads_plain (a : SocketAddr) (s : Bytes) :
    winsock.decode (winsock.storage a) = .ok a.plain ∧
    (winsock.decode (winsock.storage a) = .ok a ↔ a.plain = a) ∧
    winsock.decode (winsock.storage a) = (posix.decode (posix.storage a)).map SocketAddr.plain ∧
    winsock.readingAll.decode (winsock.storage a) = .ok (a.withFlow 0) ∧
    familyOf (winsock.storage a) = winsock.family a ∧
    (winsock.encode a).length = nameBytes a ∧
    winsock.decode s = (winsock.readingAll.decode s).map SocketAddr.plain ∧
    (familyOf s ≠ winsock.inet → familyOf s ≠ winsock.inet6 →
      winsock.decode s = .error (.custom .invalidData winsock.unsupported)) := by
  have hback : winsock.decode (winsock.storage a) = .ok a.plain := by
    rw [decode_storage, decode_encode winsock_sound rfl rfl, carried_plain rfl]
  have hposix : posix.decode (posix.storage a) = .ok a := (posix_sound.lossless rfl rfl).back a
  have hall : winsock.readingAll.decode (winsock.storage a) = .ok (a.withFlow 0) := by
    have hcarried : winsock.carried winsock.readingAll a = a.withFlow 0 := by cases a <;> rfl
    rw [decode_storage, ← hcarried]
    exact decode_encode (g := winsock.readingAll) winsock_sound rfl rfl a
  refine ⟨hback, ?_, ?_, hall, ?_, winsock.length_encode a, decode_readingAll rfl s,
    decode_of_foreign⟩
  · rw [hback, Except.ok.injEq]
  · rw [hback, hposix]
    rfl
  · exact (familyOf_storage winsock a).trans (familyOf_encode winsock_sound a)

/-- `[fe80::1%3]:80`, of use only together with its scope. -/
def linkLocal : SocketAddr := .v6 ⟨#v[0xFE80, 0, 0, 0, 0, 0, 0, 1]⟩ 80 0 3

/-- The scope is in the storage and is not read. -/
theorem linkLocal_scope_lost :
    posix.decode (posix.storage linkLocal) = .ok linkLocal ∧
      wordOf (winsock.storage linkLocal) 24 = 3 ∧
      winsock.decode (winsock.storage linkLocal) = .ok linkLocal.plain ∧
      ¬∀ a : SocketAddr, winsock.decode (winsock.storage a) = .ok a := by
  have hplain : winsock.decode (winsock.storage linkLocal) = .ok linkLocal.plain := by
    rw [decode_storage, decode_encode winsock_sound rfl rfl, carried_plain rfl]
  refine ⟨(posix_sound.lossless rfl rfl).back linkLocal, by decide, hplain, fun h ↦ ?_⟩
  have hsame := hplain.symm.trans (h linkLocal)
  rw [Except.ok.injEq] at hsame
  exact absurd hsame (by decide)

end SockNameFormat

end PollReactor.Net
