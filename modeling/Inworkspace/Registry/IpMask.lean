import Mathlib.Algebra.Group.Nat.Defs
import Mathlib.Data.List.DropRight

/-!
# Addresses and networks

`registry::types::ipmask`: an address, or a network given by an address and a
mask, and the remote addresses it matches. Those of a network text `a/p` are the ones that agree
with `a` in `p` bits, and some of the other family (`matches_fromStr_iff`).
-/

namespace Inworkspace

/-- `std::net::IpAddr`. -/
inductive IpAddr where
  | v4 (addr : BitVec 32)
  | v6 (addr : BitVec 128)
  deriving DecidableEq

namespace IpAddr

/-- `Ipv6Addr::to_ipv4_mapped`: the addresses of `::ffff:0:0/96`. -/
def toIpv4Mapped (addr : BitVec 128) : Option (BitVec 32) :=
  if addr.toNat / 2 ^ 32 = 0xffff then some (addr.truncate 32) else none

/-- `Ipv6Addr::to_ipv4`: the addresses of `::ffff:0:0/96` and of `::/96`. -/
def toIpv4 (addr : BitVec 128) : Option (BitVec 32) :=
  if addr.toNat / 2 ^ 32 = 0xffff ∨ addr.toNat / 2 ^ 32 = 0 then some (addr.truncate 32) else none

/-- `Ipv4Addr::to_ipv6_mapped`. -/
def toIpv6Mapped (addr : BitVec 32) : BitVec 128 :=
  BitVec.ofNat 128 (0xffff * 2 ^ 32 + addr.toNat)

end IpAddr

/-- An address (with a mask of all ones) or a network, `IpAddrOrMask`. -/
inductive IpAddrOrMask where
  | v4 (addr mask : BitVec 32)
  | v6 (addr mask : BitVec 128)
  deriving DecidableEq

namespace IpAddrOrMask

def fromIp : IpAddr → IpAddrOrMask
  | .v4 addr => .v4 addr (BitVec.allOnes 32)
  | .v6 addr => .v6 addr (BitVec.allOnes 128)

def tryToIp : IpAddrOrMask → Option IpAddr
  | .v4 addr mask => if mask = BitVec.allOnes 32 then some (.v4 addr) else none
  | .v6 addr mask => if mask = BitVec.allOnes 128 then some (.v6 addr) else none

def «matches» (self : IpAddrOrMask) (remote : IpAddr) : Bool :=
  match self with
  | .v4 addr mask =>
    if mask = BitVec.allOnes 32 then
      match remote with
      | .v4 remote => addr == remote
      | .v6 remote =>
        match IpAddr.toIpv4Mapped remote with
        | some remote => addr == remote
        | none => false
    else if mask = 0 then
      match remote with
      | .v4 _ => true
      | .v6 _ => false
    else
      match remote with
      | .v4 ip => ip &&& mask == addr &&& mask
      | .v6 ip =>
        -- not only mapped addresses are taken for IPv4 here
        match IpAddr.toIpv4 ip with
        | some ip => ip &&& mask == addr &&& mask
        | none => false
  | .v6 addr mask =>
    if mask = BitVec.allOnes 128 then
      match remote with
      | .v6 remote => remote == addr
      | .v4 remote => IpAddr.toIpv6Mapped remote == addr
    else if mask = 0 then
      match remote with
      | .v6 _ => true
      | .v4 _ => false
    else
      match remote with
      | .v6 ip => ip &&& mask == addr &&& mask
      | .v4 ip => IpAddr.toIpv6Mapped ip &&& mask == addr &&& mask

@[simp]
theorem tryToIp_fromIp (ip : IpAddr) : (fromIp ip).tryToIp = some ip := by
  cases ip <;> simp [fromIp, tryToIp]

theorem eq_fromIp_of_tryToIp {network : IpAddrOrMask} {ip : IpAddr}
    (h : network.tryToIp = some ip) : network = fromIp ip := by
  cases network <;> simp [tryToIp] at h <;> obtain ⟨rfl, rfl⟩ := h <;> rfl

/-! ## Network texts -/

section FromStr

variable (parseAddr : List Char → Option IpAddr) (parseMask : List Char → Option ℕ)

/-- `rsplit_once('/')`. -/
def rsplitOnce (text : List Char) : Option (List Char × List Char) :=
  if '/' ∈ text then some ((text.rdropWhile (· ≠ '/')).dropLast, text.rtakeWhile (· ≠ '/'))
  else none

/-- The mask of the first `p` bits. -/
def prefixMask (w p : ℕ) : BitVec w := BitVec.allOnes w <<< (w - p)

/-- `IpAddrOrMask::from_str`, for any way to trim and parse an address and a number (`u32`). The
    error is the text, which the message quotes. -/
def fromStr (value : List Char) : Except (List Char) IpAddrOrMask :=
  match rsplitOnce value with
  | some (addr, mask) =>
    match parseAddr addr, parseMask mask with
    | some (.v4 addr), some mask =>
      if 8 ≤ mask ∧ mask ≤ 32 then .ok (.v4 addr (prefixMask 32 mask)) else .error value
    | some (.v6 addr), some mask =>
      if 8 ≤ mask ∧ mask ≤ 128 then .ok (.v6 addr (prefixMask 128 mask)) else .error value
    | _, _ => .error value
  | none =>
    match parseAddr value with
    | some addr => .ok (fromIp addr)
    | none => .error value

/-- The text is of the network of the first `p` bits of `a` (all for an address). -/
def IsText (value : List Char) (a : IpAddr) (p : ℕ) : Prop :=
  match rsplitOnce value with
  | some (addr, mask) => parseAddr addr = some a ∧ parseMask mask = some p
  | none => parseAddr value = some a ∧ p = match a with | .v4 _ => 32 | .v6 _ => 128

end FromStr

open IpAddr BitVec

variable {w p : ℕ} {r : BitVec 128} {x : BitVec 32}

/-- Two addresses agree in the first `p` bits. -/
def Agree {w : ℕ} (p : ℕ) (x y : BitVec w) : Prop := ∀ i < p, x.getMsbD i = y.getMsbD i

theorem getMsbD_prefixMask (hp : p ≤ w) (i : ℕ) :
    (prefixMask w p).getMsbD i = decide (i < p) := by
  simp [prefixMask]
  omega

theorem and_prefixMask_eq_iff (hp : p ≤ w) {x y : BitVec w} :
    x &&& prefixMask w p = y &&& prefixMask w p ↔ Agree p x y := by
  refine ⟨fun h i hi => ?_, fun h => BitVec.eq_of_getMsbD_eq fun i _ => ?_⟩
  · simpa [getMsbD_prefixMask hp, hi] using congrArg (·.getMsbD i) h
  · by_cases hi : i < p
    · simp [h i hi]
    · simp [getMsbD_prefixMask hp, hi]

theorem agree_iff_eq {w : ℕ} {x y : BitVec w} : Agree w x y ↔ x = y :=
  ⟨fun h => BitVec.eq_of_getMsbD_eq h, fun h => h ▸ fun _ _ => rfl⟩

theorem prefixMask_self (w : ℕ) : prefixMask w w = BitVec.allOnes w := by simp [prefixMask]

theorem prefixMask_ne_zero (hp : p ≤ w) (hpos : 0 < p) : prefixMask w p ≠ 0 := by
  intro h
  simpa [h, hpos] using getMsbD_prefixMask hp 0

theorem prefixMask_ne_allOnes (hp : p < w) : prefixMask w p ≠ BitVec.allOnes w := by
  intro h
  simpa [h, hp] using getMsbD_prefixMask hp.le p

theorem toIpv4Mapped_eq_some :
    toIpv4Mapped r = some x ↔ r = toIpv6Mapped x := by
  rw [← toNat_inj, toIpv6Mapped, toNat_ofNat, Nat.mod_eq_of_lt (by omega), toIpv4Mapped,
    Option.ite_none_right_eq_some, Option.some.injEq, ← toNat_inj, truncate_eq_setWidth,
    toNat_setWidth]
  omega

theorem toIpv4_eq_some :
    toIpv4 r = some x ↔ toIpv4Mapped r = some x ∨ r = x.setWidth 128 := by
  simp only [toIpv4, toIpv4Mapped, Option.ite_none_right_eq_some, Option.some.injEq, ← toNat_inj,
    truncate_eq_setWidth, toNat_setWidth]
  omega

/-- The address, with an IPv4-mapped one taken as IPv4. -/
def unmapped : IpAddr → IpAddr
  | .v4 addr => .v4 addr
  | .v6 addr => ((toIpv4Mapped addr).map .v4).getD (.v6 addr)

/-- `r` is of the same family as `a` and agrees with it in the first `p` bits. -/
def InNetwork (a : IpAddr) (p : ℕ) (r : IpAddr) : Prop :=
  match a with
  | .v4 a => ∃ x, unmapped r = .v4 x ∧ Agree p x a
  | .v6 a => ∃ x, unmapped r = .v6 x ∧ Agree p x a

/-- `r` is of the other family and agrees with `a` when it is translated: from `::/96` to IPv4 (for
    a network only), or from IPv4 to `::ffff:0:0/96`. -/
def IsTranslated (a : IpAddr) (p : ℕ) (r : IpAddr) : Prop :=
  match a with
  | .v4 a => ∃ x : BitVec 32, r = .v6 (x.setWidth 128) ∧ p < 32 ∧ Agree p x a
  | .v6 a => ∃ x, unmapped r = .v4 x ∧ Agree p (toIpv6Mapped x) a

theorem unmapped_v6_eq_v4 :
    unmapped (.v6 r) = .v4 x ↔ toIpv4Mapped r = some x := by
  cases h : toIpv4Mapped r <;> simp [unmapped, h]

/-- An IPv4 network has its addresses, and IPv6 ones that stand for them. -/
theorem matches_v4 {a : BitVec 32} {p : ℕ} (hpos : 0 < p) (hp : p ≤ 32) (r : IpAddr) :
    «matches» (.v4 a (prefixMask 32 p)) r ↔ InNetwork (.v4 a) p r ∨ IsTranslated (.v4 a) p r := by
  unfold «matches» InNetwork IsTranslated
  obtain rfl | hlt := hp.eq_or_lt
  · rw [prefixMask_self]
    cases r with
    | v4 r => simp [agree_iff_eq, unmapped, eq_comm (a := a)]
    | v6 r =>
      simp only [unmapped_v6_eq_v4]
      cases toIpv4Mapped r <;> simp [agree_iff_eq, eq_comm (a := a)]
  · dsimp only
    rw [if_neg (prefixMask_ne_allOnes hlt), if_neg (prefixMask_ne_zero hp hpos)]
    cases r with
    | v4 r => simp [and_prefixMask_eq_iff hp, unmapped]
    | v6 r =>
      simp only [unmapped_v6_eq_v4, IpAddr.v6.injEq, hlt, true_and, ← exists_or, ← or_and_right,
        ← toIpv4_eq_some]
      cases toIpv4 r <;> simp [and_prefixMask_eq_iff hp]

/-- An IPv6 network also has the IPv4 addresses mapped into it. -/
theorem matches_v6 {a : BitVec 128} {p : ℕ} (hpos : 0 < p) (hp : p ≤ 128) (r : IpAddr) :
    «matches» (.v6 a (prefixMask 128 p)) r ↔ InNetwork (.v6 a) p r ∨ IsTranslated (.v6 a) p r := by
  have hmatches : «matches» (.v6 a (prefixMask 128 p)) r ↔
      Agree p (match r with | .v4 r => toIpv6Mapped r | .v6 r => r) a := by
    unfold «matches»
    obtain rfl | hlt := hp.eq_or_lt
    · rw [prefixMask_self]
      cases r <;> simp [agree_iff_eq]
    · dsimp only
      rw [if_neg (prefixMask_ne_allOnes hlt), if_neg (prefixMask_ne_zero hp hpos)]
      cases r <;> simp [and_prefixMask_eq_iff hp]
  rw [hmatches]
  unfold InNetwork IsTranslated
  cases r with
  | v4 r => simp [unmapped]
  | v6 r =>
    cases h : toIpv4Mapped r with
    | none => simp [unmapped, h]
    | some x => simp [unmapped, h, ← toIpv4Mapped_eq_some.mp h]

/-- `matches` of a text `a/p` that `from_str` accepts is exact for `r` unless it is translated. -/
theorem matches_fromStr_iff {parseAddr : List Char → Option IpAddr}
    {parseMask : List Char → Option ℕ} {value : List Char} {network : IpAddrOrMask} {a : IpAddr}
    {p : ℕ} (h : fromStr parseAddr parseMask value = .ok network)
    (htext : IsText parseAddr parseMask value a p) (r : IpAddr) :
    (network.matches r ↔ InNetwork a p r) ↔ ¬IsTranslated a p r := by
  have hmatches : network.matches r ↔ InNetwork a p r ∨ IsTranslated a p r := by
    unfold IsText at htext
    cases hsplit : rsplitOnce value with simp only [hsplit] at htext
    | none =>
      obtain ⟨haddr, rfl⟩ := htext
      simp only [fromStr, hsplit, haddr, Except.ok.injEq] at h
      obtain rfl := h
      cases a with rw [fromIp, ← prefixMask_self]
      | v4 => exact matches_v4 (by decide) le_rfl r
      | v6 => exact matches_v6 (by decide) le_rfl r
    | some =>
      simp only [fromStr, hsplit, htext] at h
      cases a <;> dsimp only at h <;> split_ifs at h with hp <;> obtain rfl := Except.ok.inj h
      · exact matches_v4 (by omega) hp.2 r
      · exact matches_v6 (by omega) hp.2 r
  -- what is translated is of the other family
  have hdisjoint : InNetwork a p r → ¬IsTranslated a p r := by
    cases a with rintro ⟨x, hx, -⟩ ⟨y, hy, -⟩
    | v4 =>
      rw [hy, unmapped_v6_eq_v4, toIpv4Mapped_eq_some, ← toNat_inj] at hx
      simp [toIpv6Mapped] at hx
      omega
    | v6 => cases hx.symm.trans hy
  tauto

/-- The network of `10.0.0.0/8`. -/
def ten : IpAddrOrMask := .v4 0x0a000000 (prefixMask 32 8)

theorem matches_ten :
    (fromStr (fun _ => some (.v4 0x0a000000)) (fun _ => some 8) "10.0.0.0/8".toList = .ok ten ∧
      IsText (fun _ => some (.v4 0x0a000000)) (fun _ => some 8) "10.0.0.0/8".toList
        (.v4 0x0a000000) 8) ∧
      ∀ r, (ten.matches r ↔ InNetwork (.v4 0x0a000000) 8 r) ↔ ¬IsTranslated (.v4 0x0a000000) 8 r := by
  refine ⟨?h, matches_fromStr_iff (?h).1 (?h).2⟩
  exact ⟨rfl, rfl, rfl⟩

/-- `10.0.0.0/8` matches the IPv6 address `::10.1.2.3`. -/
theorem ten_matches_compatible :
    fromStr (fun _ => some (.v4 0x0a000000)) (fun _ => some 8) "10.0.0.0/8".toList = .ok ten ∧
      ten.matches (.v6 0x0a010203) ∧ ¬InNetwork (.v4 0x0a000000) 8 (.v6 0x0a010203) := by
  refine ⟨rfl, by decide, ?_⟩
  rintro ⟨x, hx, -⟩
  simp [unmapped, toIpv4Mapped] at hx

end IpAddrOrMask

end Inworkspace
