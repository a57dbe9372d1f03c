import Sylar.Foundation.Digits

/-!
# The text grammar of internet addresses

The standard reading of the text of an address, as a sequence of bytes in network order:

* `readIPv6` — groups of one to four hexadecimal digits, separated by colons, with at most one `::`
  that stands for the missing zero groups, at least one;
* `readIPv4` — four decimal numbers below 256 of one to three digits, separated by dots.
-/

namespace Sylar.Address

open Digits

/-- A group of one to four hexadecimal digits. -/
def readGroup (cs : List Char) : Option ℕ :=
  if cs.length ≤ 4 then readNumber 16 cs else none

/-- Groups separated by colons; the empty text has none. -/
def readGroups (cs : List Char) : Option (List ℕ) :=
  if cs = [] then some [] else (cs.splitOn ':').mapM readGroup

/-- What stands before and behind the first `::`. -/
def splitDouble : List Char → Option (List Char × List Char)
  | [] => none
  | [_] => none
  | c :: d :: cs =>
    if c = ':' ∧ d = ':' then some ([], cs)
    else (splitDouble (d :: cs)).map fun (before, behind) => (c :: before, behind)

/-- The eight groups of an IPv6 address. -/
def readIPv6Groups (cs : List Char) : Option (List ℕ) :=
  match splitDouble cs with
  | none => do
    let groups ← readGroups cs
    if groups.length = 8 then some groups else none
  | some (before, behind) => do
    -- a second `::` makes an empty group
    let left ← readGroups before
    let right ← readGroups behind
    if left.length + right.length < 8 then
      some (left ++ List.replicate (8 - (left.length + right.length)) 0 ++ right)
    else none

/-- The two bytes of a group. -/
def groupBytes (group : ℕ) : List UInt8 := [UInt8.ofNat (group / 256), UInt8.ofNat (group % 256)]

/-- The bytes of an IPv6 address. -/
def readIPv6 (cs : List Char) : Option (List UInt8) :=
  (readIPv6Groups cs).map fun groups => groups.flatMap groupBytes

/-- A decimal number below 256. -/
def readOctet (cs : List Char) : Option UInt8 :=
  if cs.length ≤ 3 then
    (readNumber 10 cs).bind fun n => if n < 256 then some (UInt8.ofNat n) else none
  else none

/-- The bytes of a dotted quad. -/
def readIPv4 (cs : List Char) : Option (List UInt8) := do
  let octets ← (cs.splitOn '.').mapM readOctet
  if octets.length = 4 then some octets else none

/-- The bytes of an address of either kind. -/
def readAddress (cs : List Char) : Option (List UInt8) :=
  match readIPv6 cs with
  | some bytes => some bytes
  | none => readIPv4 cs

/-! ## Reading what was written -/

/-- Reading item by item inverts writing item by item. -/
theorem mapM_map_eq_some {α β : Type*} {f : α → β} {g : β → Option α} {l : List α}
    (h : ∀ x ∈ l, g (f x) = some x) : (l.map f).mapM g = some l := by
  induction l with
  | nil => rfl
  | cons x l ih =>
    have hx := h x List.mem_cons_self
    have hl := ih fun y hy => h y (List.mem_cons_of_mem x hy)
    simp [List.mapM_cons, hx, hl]

/-- A group of the printed text is read back. -/
theorem readGroup_toDigits {n : ℕ} (h : n < 65536) : readGroup (Nat.toDigits 16 n) = some n := by
  have hlen : (Nat.toDigits 16 n).length ≤ 4 :=
    (Nat.length_toDigits_le_iff (by decide) (by decide)).2 h
  rw [readGroup, if_pos hlen, readNumber_toDigits (by decide) le_rfl]

/-- A number has no colon in it. -/
theorem colon_not_mem_toDigits (n : ℕ) : ':' ∉ Nat.toDigits 16 n :=
  not_mem_toDigits (by decide) le_rfl n (by decide)

/-- Every item but the first has the separator in front. -/
theorem intercalate_cons_eq_flatMap {α : Type*} (sep x : List α) (l : List (List α)) :
    sep.intercalate (x :: l) = x ++ l.flatMap fun y => sep ++ y := by
  induction l generalizing x with
  | nil => simp
  | cons y l ih => simp [List.intercalate_cons_cons, ih]

/-- Groups in hexadecimal, separated by colons. -/
def groupsText (groups : List ℕ) : List Char :=
  [':'].intercalate (groups.map (Nat.toDigits 16))

/-- The groups are written with colons between them. -/
theorem groupsText_cons (x : ℕ) (groups : List ℕ) :
    groupsText (x :: groups) =
      Nat.toDigits 16 x ++ groups.flatMap fun y => ':' :: Nat.toDigits 16 y := by
  rw [groupsText, List.map_cons, intercalate_cons_eq_flatMap, List.flatMap_map]
  rfl

/-- They are made of digits and colons. -/
theorem not_mem_groupsText {c : Char} (hc : digitVal c = none) (hcolon : c ≠ ':')
    (groups : List ℕ) : c ∉ groupsText groups := by
  have hdigits : ∀ n, c ∉ Nat.toDigits 16 n := fun n => not_mem_toDigits (by decide) le_rfl n hc
  cases groups with
  | nil => exact List.not_mem_nil
  | cons x groups => simp [groupsText_cons, hdigits, hcolon]

/-- What is written is read back. -/
theorem readGroups_groupsText {groups : List ℕ} (h : ∀ n ∈ groups, n < 65536) :
    readGroups (groupsText groups) = some groups := by
  cases groups with
  | nil => rfl
  | cons x groups =>
    have hne : groupsText (x :: groups) ≠ [] := by
      simp [groupsText_cons, Nat.toDigits_ne_nil]
    have hsplit : (groupsText (x :: groups)).splitOn ':' =
        (x :: groups).map (Nat.toDigits 16) := by
      refine List.splitOn_intercalate ':' ?_ (by simp)
      simp only [List.forall_mem_map]
      exact fun n _ => colon_not_mem_toDigits n
    rw [readGroups, if_neg hne, hsplit]
    exact mapM_map_eq_some fun n hn => readGroup_toDigits (h n hn)

/-- A text without colons is passed over in the search for `::`. -/
theorem splitDouble_append {s : List Char} (h : ':' ∉ s) (t : List Char) :
    splitDouble (s ++ t) = (splitDouble t).map fun p => (s ++ p.1, p.2) := by
  induction s with
  | nil => simp
  | cons c s ih =>
    obtain ⟨hc, hs⟩ : ':' ≠ c ∧ ':' ∉ s := by simpa using h
    cases hrest : s ++ t with
    | nil =>
      -- one character is no `::`
      obtain ⟨rfl, rfl⟩ := List.append_eq_nil_iff.1 hrest
      rfl
    | cons d cs =>
      rw [List.cons_append, hrest, splitDouble, if_neg (by simp [hc.symm]), ← hrest, ih hs,
        Option.map_map]
      rfl

/-- So is a group with its colon. -/
theorem splitDouble_colon_append {s : List Char} (hne : s ≠ []) (h : ':' ∉ s) (t : List Char) :
    splitDouble (':' :: s ++ t) = (splitDouble t).map fun p => (':' :: s ++ p.1, p.2) := by
  obtain ⟨d, s, rfl⟩ := List.exists_cons_of_ne_nil hne
  have hd : d ≠ ':' := by
    rintro rfl
    exact h List.mem_cons_self
  rw [List.cons_append, List.cons_append, splitDouble, if_neg (by simp [hd]), ← List.cons_append,
    splitDouble_append h, Option.map_map]
  rfl

/-- There is no double colon between groups. -/
theorem splitDouble_groupsText (groups : List ℕ) (t : List Char) :
    splitDouble (groupsText groups ++ t) =
      (splitDouble t).map fun p => (groupsText groups ++ p.1, p.2) := by
  cases groups with
  | nil => simp [groupsText]
  | cons x groups =>
    -- behind the first group, the groups have their colons in front
    have htail : splitDouble ((groups.flatMap fun y => ':' :: Nat.toDigits 16 y) ++ t) =
        (splitDouble t).map fun p =>
          ((groups.flatMap fun y => ':' :: Nat.toDigits 16 y) ++ p.1, p.2) := by
      induction groups with
      | nil => simp
      | cons y groups ih =>
        rw [List.flatMap_cons, List.append_assoc,
          splitDouble_colon_append Nat.toDigits_ne_nil (colon_not_mem_toDigits y), ih,
          Option.map_map]
        simp [Function.comp_def]
    rw [groupsText_cons, List.append_assoc, splitDouble_append (colon_not_mem_toDigits x), htail,
      Option.map_map]
    simp [Function.comp_def]

/-- Eight groups written in full. -/
theorem readIPv6Groups_full {groups : List ℕ} (hlen : groups.length = 8)
    (h : ∀ n ∈ groups, n < 65536) : readIPv6Groups (groupsText groups) = some groups := by
  have hnone : splitDouble (groupsText groups) = none := by
    simpa [splitDouble] using splitDouble_groupsText groups []
  simp [readIPv6Groups, hnone, readGroups_groupsText h, hlen]

/-- Groups with a `::` for the zeros between them. -/
theorem readIPv6Groups_double {left right : List ℕ} {k : ℕ}
    (hlen : left.length + (k + 1) + right.length = 8) (hleft : ∀ n ∈ left, n < 65536)
    (hright : ∀ n ∈ right, n < 65536) :
    readIPv6Groups (groupsText left ++ ':' :: ':' :: groupsText right) =
      some (left ++ List.replicate (k + 1) 0 ++ right) := by
  have hsplit : splitDouble (groupsText left ++ ':' :: ':' :: groupsText right) =
      some (groupsText left, groupsText right) := by
    simp [splitDouble_groupsText, splitDouble]
  have hshort : left.length + right.length < 8 := by omega
  have hzeros : 8 - (left.length + right.length) = k + 1 := by omega
  simp [readIPv6Groups, hsplit, readGroups_groupsText hleft, readGroups_groupsText hright, hshort,
    hzeros]

/-- Some texts that are addresses, and some that are not. -/
example : readIPv6Groups "::1".toList = some [0, 0, 0, 0, 0, 0, 0, 1] ∧
    readIPv6Groups "fe80:0::".toList = some [0xfe80, 0, 0, 0, 0, 0, 0, 0] ∧
    readIPv6Groups "1:2:3:4:5:6::7".toList = some [1, 2, 3, 4, 5, 6, 0, 7] ∧
    readIPv6Groups "1::2::3".toList = none ∧
    readIPv6Groups "1:2:3:4:5:6:7::8".toList = none := by decide

/-- Two bytes come back from their group. -/
theorem groupBytes_ofBytes (a b : UInt8) : groupBytes (a.toNat * 256 + b.toNat) = [a, b] := by
  have ha : a.toNat < 256 := a.toNat_lt
  have hb : b.toNat < 256 := b.toNat_lt
  have hhigh : (a.toNat * 256 + b.toNat) / 256 = a.toNat := by omega
  have hlow : (a.toNat * 256 + b.toNat) % 256 = b.toNat := by omega
  rw [groupBytes, hhigh, hlow, UInt8.ofNat_toNat, UInt8.ofNat_toNat]

/-- An octet of the printed text is read back. -/
theorem readOctet_toDigits (b : UInt8) : readOctet (Nat.toDigits 10 b.toNat) = some b := by
  have hb : b.toNat < 256 := b.toNat_lt
  have hlen : (Nat.toDigits 10 b.toNat).length ≤ 3 :=
    (Nat.length_toDigits_le_iff (by decide) (by decide)).2 (by omega)
  rw [readOctet, if_pos hlen, readNumber_toDigits (by decide) (by decide), Option.bind_some,
    if_pos hb, UInt8.ofNat_toNat]

/-- Octets in decimal, separated by dots. -/
def octetsText (octets : List UInt8) : List Char :=
  ['.'].intercalate (octets.map fun b => Nat.toDigits 10 b.toNat)

/-- Octets are made of digits and dots. -/
theorem not_mem_octetsText {c : Char} (hc : digitVal c = none) (hdot : c ≠ '.')
    (octets : List UInt8) : c ∉ octetsText octets := by
  have hdigits : ∀ n, c ∉ Nat.toDigits 10 n := fun n =>
    not_mem_toDigits (by decide) (by decide) n hc
  cases octets with
  | nil => exact List.not_mem_nil
  | cons b octets =>
    simp [octetsText, intercalate_cons_eq_flatMap, List.flatMap_map, hdigits, hdot]

/-- Four octets are read back. -/
theorem readIPv4_octetsText {octets : List UInt8} (hlen : octets.length = 4) :
    readIPv4 (octetsText octets) = some octets := by
  have hsplit : (octetsText octets).splitOn '.' =
      octets.map fun b => Nat.toDigits 10 b.toNat := by
    refine List.splitOn_intercalate '.' ?_ (by simp [← List.length_eq_zero_iff, hlen])
    simp only [List.forall_mem_map]
    exact fun b _ => not_mem_toDigits (by decide) (by decide) _ (by decide)
  have hread := mapM_map_eq_some fun b (_ : b ∈ octets) => readOctet_toDigits b
  simp [readIPv4, hsplit, hread, hlen]

/-- A dotted quad is no IPv6 address: it is one group, and too long for one. -/
theorem readIPv6_octetsText {octets : List UInt8} (hlen : octets.length = 4) :
    readIPv6 (octetsText octets) = none := by
  have hcolon := not_mem_octetsText (c := ':') (by decide) (by decide) octets
  have hlong : 4 < (octetsText octets).length := by
    match octets, hlen with
    | [a, b, c, d], _ =>
      -- three dots and at least two digits
      have hpos : ∀ n, 0 < (Nat.toDigits 10 n).length := fun n =>
        List.length_pos_iff.2 Nat.toDigits_ne_nil
      have ha := hpos a.toNat
      have hb := hpos b.toNat
      simp only [octetsText, List.map_cons, List.map_nil, List.intercalate_cons_cons,
        List.intercalate_singleton, List.length_append, List.length_cons, List.length_nil]
      omega
  have hnone : splitDouble (octetsText octets) = none := by
    simpa [splitDouble] using splitDouble_append hcolon []
  have hne : octetsText octets ≠ [] := List.ne_nil_of_length_pos (by omega)
  have hgroups : readGroups (octetsText octets) = none := by
    rw [readGroups, if_neg hne, List.splitOn_eq_singleton hcolon, List.mapM_cons, readGroup,
      if_neg (by omega)]
    rfl
  simp [readIPv6, readIPv6Groups, hnone, hgroups]

end Sylar.Address
