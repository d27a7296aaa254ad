import Inworkspace.Auth.AccessToken

/-!
# Banned addresses

`common::network::security`: the addresses and networks a node refuses
connections from. An address is banned by the node itself (`block_ip`), or
because another node has announced that it has stored a ban
(`reload_registry`); both put it into the node's set of banned addresses.
Entries of the set are compared by their address, and an entry that is already
there stays, also when it has expired. Networks that are announced go into a
list, which is looked at if it was not empty when the node was started.

* `BanRun.blocked_until_expiry`: in a run in which every ban is enforced when it is
  made (`InEffect`), a banned address is blocked until the latest expiry of its
  bans;
* `banned_again_not_blocked`: an address that is banned again after its first ban
  has expired is not blocked.
-/

namespace Inworkspace

open Lib.KeyedList List

/-! ## The lists -/

inductive BlockReason where
  | rcptToFailure
  | authFailure
  | loitering
  | portScanning
  | manual
  | other
  deriving DecidableEq

structure IpWithTtl (α : Type) where
  ip : α
  expiresAt : ℕ
  deriving DecidableEq

def IpWithTtl.isExpired {α : Type} (self : IpWithTtl α) (now : ℕ) : Bool := self.expiresAt ≤ now

/-- What bans depend on in `Security`: the allowed addresses and networks, and how long a ban
    lasts. -/
structure IpSecurity where
  allowedIpAddresses : List (IpWithTtl IpAddr)
  allowedIpNetworks : List (IpWithTtl IpAddrOrMask)
  hasAllowedNetworks : Bool
  authBanPeriod : Option ℕ
  abuseBanPeriod : Option ℕ
  loiterBanPeriod : Option ℕ
  scanBanPeriod : Option ℕ

variable (self : IpSecurity) (now : ℕ)

namespace IpSecurity

/-- `Security::ban_period`. -/
def banPeriod : BlockReason → Option ℕ
  | .rcptToFailure => self.abuseBanPeriod
  | .authFailure => self.authBanPeriod
  | .loitering => self.loiterBanPeriod
  | .portScanning => self.scanBanPeriod
  | .manual | .other => none

/-- `Server::is_ip_allowed`. -/
def isIpAllowed (ip : IpAddr) : Bool :=
  (self.allowedIpAddresses.find? (·.ip == ip)).any (!·.isExpired now) ||
    (self.hasAllowedNetworks &&
      self.allowedIpNetworks.any fun network => network.ip.matches ip && !network.isExpired now)

end IpSecurity

/-- `BlockedIp`, a ban as it is stored in the registry. -/
structure BlockedIp where
  address : IpAddrOrMask
  expiresAt : Option ℤ
  deriving DecidableEq

structure BlockedIps where
  blockedIpAddresses : List (IpWithTtl IpAddr)
  blockedIpNetworks : List (IpWithTtl IpAddrOrMask)
  hasBlockedNetworks : Bool

namespace BlockedIps

variable (self : BlockedIps)

/-- `AHashSet::insert` for the set of addresses. -/
def insertAddress (entry : IpWithTtl IpAddr) : BlockedIps :=
  { self with blockedIpAddresses := insertNew (·.ip) self.blockedIpAddresses entry }

/-- A stored ban, as an address or as a network. -/
def add (address : IpAddrOrMask) (expiresAt : ℕ) : BlockedIps :=
  match address.tryToIp with
  | some ip => self.insertAddress ⟨ip, expiresAt⟩
  | none =>
    { self with blockedIpNetworks := self.blockedIpNetworks ++ [⟨address, expiresAt⟩] }

/-- `Server::block_ip`, as far as the set of the node goes. -/
def blockIp (security : IpSecurity) (now : ℕ) (ip : IpAddr) (reason : BlockReason) : BlockedIps :=
  let expiresAt := (security.banPeriod reason).map (now + ·)
  -- an entry of the address that has expired is not replaced
  self.insertAddress ⟨ip, expiresAt.getD u64Max⟩

/-- `Server::reload_registry`, for a ban that another node has stored. -/
def reloadInsert (now : ℕ) (ban : BlockedIp) : BlockedIps :=
  if expiry ban.expiresAt > now then self.add ban.address (expiry ban.expiresAt) else self

/-- `BlockedIps::parse`, for the stored bans. -/
def parse (bans : List BlockedIp) : BlockedIps :=
  let ips := (bans.filter fun ban => ban.expiresAt.all (· > (now : ℤ))).foldl
    (fun (ips : BlockedIps) ban => ips.add ban.address (expiry ban.expiresAt)) ⟨[], [], false⟩
  { ips with hasBlockedNetworks := !ips.blockedIpNetworks.isEmpty }

/-- `Server::is_ip_blocked`. -/
def isIpBlocked (security : IpSecurity) (now : ℕ) (ip : IpAddr) : Bool :=
  ((self.blockedIpAddresses.find? (·.ip == ip)).any (!·.isExpired now) ||
    (self.hasBlockedNetworks &&
      self.blockedIpNetworks.any fun network => network.ip.matches ip && !network.isExpired now)) &&
    !security.isIpAllowed now ip

end BlockedIps

open BlockedIps

/-! ## Bans -/

/-- A ban of an address or a network, until it expires. -/
abbrev Ban := IpWithTtl IpAddrOrMask

/-- The ban is for this address, or for a network that contains it. -/
def Ban.Covers (ban : Ban) (ip : IpAddr) : Prop :=
  match ban.ip.tryToIp with
  | some address => address = ip
  | none => ban.ip.matches ip = true

namespace BlockedIps

/-- The ban is in the set of addresses, with its expiry or a later one, or among the networks. -/
def Listed (ips : BlockedIps) (ban : Ban) : Prop :=
  match ban.ip.tryToIp with
  | some address => ∃ entry ∈ ips.blockedIpAddresses,
      entry.ip = address ∧ ban.expiresAt ≤ entry.expiresAt
  | none => ban ∈ ips.blockedIpNetworks

/-- The addresses are distinct, every ban is listed, and the networks are looked at if one is
    banned. -/
structure Enforces (ips : BlockedIps) (bans : List Ban) : Prop where
  nodup : (ips.blockedIpAddresses.map (·.ip)).Nodup
  listed : ∀ ban ∈ bans, ips.Listed ban
  networks : ∀ ban ∈ bans, ban.ip.tryToIp = none → ips.hasBlockedNetworks = true

variable {ips : BlockedIps} {ban : Ban} {entry : IpWithTtl IpAddr} {bans : List Ban}

/-- An address is blocked until its bans have expired. -/
theorem Enforces.isIpBlocked (h : ips.Enforces bans) (hban : ban ∈ bans)
    {ip : IpAddr} (hcovers : ban.Covers ip) {now : ℕ} (hnow : now < ban.expiresAt)
    {security : IpSecurity} (hallowed : security.isIpAllowed now ip = false) :
    ips.isIpBlocked security now ip = true := by
  have hlisted := h.listed ban hban
  rw [BlockedIps.isIpBlocked, hallowed, Bool.not_false, Bool.and_true, Bool.or_eq_true]
  cases haddress : ban.ip.tryToIp with
  | some address =>
    rw [Ban.Covers, haddress] at hcovers
    rw [Listed, haddress] at hlisted
    obtain ⟨entry, hentry, rfl, hle⟩ := hlisted
    obtain rfl : entry.ip = ip := hcovers
    -- an address is in the set once, so what is found is this entry
    rw [find?_eq_some h.nodup hentry]
    simp only [Option.any_some, IpWithTtl.isExpired, Bool.not_eq_true', decide_eq_false_iff_not]
    omega
  | none =>
    rw [Ban.Covers, haddress] at hcovers
    rw [Listed, haddress] at hlisted
    refine .inr ?_
    rw [h.networks ban hban haddress, Bool.true_and, any_eq_true]
    refine ⟨ban, hlisted, ?_⟩
    simp only [hcovers, IpWithTtl.isExpired, Bool.true_and, Bool.not_eq_true',
      decide_eq_false_iff_not]
    omega

/-- A ban stays listed. -/
theorem Listed.add (h : ips.Listed ban) (new : Ban) :
    (ips.add new.ip new.expiresAt).Listed ban := by
  rw [Listed] at h ⊢
  rw [BlockedIps.add]
  cases haddress : ban.ip.tryToIp with
  | some address =>
    rw [haddress] at h
    obtain ⟨entry, hentry, hip, hle⟩ := h
    refine ⟨entry, ?_, hip, hle⟩
    split
    · exact mem_insertNew_of_mem hentry _
    · exact hentry
  | none =>
    rw [haddress] at h
    change ban ∈ BlockedIps.blockedIpNetworks _
    split
    · exact h
    · exact mem_append_left _ h

/-- No entry of the address that is banned expires before the ban does. -/
def NotShadowed (ips : BlockedIps) (ban : Ban) : Prop :=
  ∀ entry ∈ ips.blockedIpAddresses, ban.ip.tryToIp = some entry.ip →
    ban.expiresAt ≤ entry.expiresAt

/-- A new ban is listed, unless there is an entry that expires earlier. -/
theorem listed_add (h : ips.NotShadowed ban) : (ips.add ban.ip ban.expiresAt).Listed ban := by
  rw [add]
  cases haddress : ban.ip.tryToIp with
  | some address =>
    rw [Listed, haddress]
    obtain ⟨entry, hentry, hip, hnew | hold⟩ := exists_mem_insertNew (·.ip) ips.blockedIpAddresses
      ⟨address, ban.expiresAt⟩
    · exact ⟨entry, hentry, hip, by rw [hnew]⟩
    · exact ⟨entry, hentry, hip, h entry hold (haddress.trans (congrArg some hip.symm))⟩
  | none =>
    rw [Listed, haddress]
    exact mem_append_right _ (mem_singleton_self ban)

theorem nodup_add (h : (ips.blockedIpAddresses.map (·.ip)).Nodup) (ban : Ban) :
    ((ips.add ban.ip ban.expiresAt).blockedIpAddresses.map (·.ip)).Nodup := by
  rw [add]
  split
  · exact nodup_insertNew h _
  · exact h

theorem hasBlockedNetworks_add (ban : Ban) :
    (ips.add ban.ip ban.expiresAt).hasBlockedNetworks = ips.hasBlockedNetworks := by
  rw [add]
  split <;> rfl

theorem mem_or_of_mem_add (h : entry ∈ (ips.add ban.ip ban.expiresAt).blockedIpAddresses) :
    entry ∈ ips.blockedIpAddresses ∨
      (ban.ip.tryToIp = some entry.ip ∧ ban.expiresAt = entry.expiresAt) := by
  rw [add] at h
  split at h
  · rename_i haddress
    obtain hold | rfl := mem_or_eq_of_mem_insertNew h
    · exact .inl hold
    · exact .inr ⟨haddress, rfl⟩
  · exact .inl h

/-- A new ban is enforced: no earlier expiry hides it and, for a network, the networks are looked
    at. -/
def InEffect (ips : BlockedIps) (ban : Ban) : Prop :=
  ips.NotShadowed ban ∧ (ban.ip.tryToIp = none → ips.hasBlockedNetworks = true)

theorem Enforces.add (h : ips.Enforces bans) (hban : ips.InEffect ban) :
    (ips.add ban.ip ban.expiresAt).Enforces (ban :: bans) := by
  refine ⟨nodup_add h.nodup ban, fun b hb => ?_, fun b hb hnetwork => ?_⟩
  · obtain rfl | hb := mem_cons.mp hb
    · exact listed_add hban.1
    · exact (h.listed b hb).add ban
  · rw [hasBlockedNetworks_add]
    obtain rfl | hb := mem_cons.mp hb
    · exact hban.2 hnetwork
    · exact h.networks b hb hnetwork

end BlockedIps

/-! ## Stored bans -/

/-- A stored ban. -/
def BlockedIp.toBan (self : BlockedIp) : Ban := ⟨self.address, expiry self.expiresAt⟩

/-- Of the bans of one address, the first one expires last. -/
def FirstLasts (bans : List Ban) : Prop :=
  bans.Pairwise fun ban ban' => ban.ip.tryToIp.isSome = true → ban.ip = ban'.ip →
    ban'.expiresAt ≤ ban.expiresAt

namespace BlockedIps

/-- What a loop over bans lists. -/
theorem listed_foldl {bans : List Ban} (ips : BlockedIps) (hfirst : FirstLasts bans)
    (hnodup : (ips.blockedIpAddresses.map (·.ip)).Nodup)
    (hshadow : ∀ ban ∈ bans, ips.NotShadowed ban) :
    let result := bans.foldl (fun (ips : BlockedIps) ban => ips.add ban.ip ban.expiresAt) ips
    (result.blockedIpAddresses.map (·.ip)).Nodup ∧
      (∀ ban, ban ∈ bans ∨ ips.Listed ban → result.Listed ban) := by
  induction bans generalizing ips with
  | nil => exact ⟨hnodup, fun ban h => h.resolve_left not_mem_nil⟩
  | cons new bans ih =>
    obtain ⟨hnew, hfirst⟩ := pairwise_cons.mp hfirst
    have hshadow' : ∀ ban ∈ bans, (ips.add new.ip new.expiresAt).NotShadowed ban := by
      intro ban hban entry hentry haddress
      obtain hold | ⟨hip, hexpires⟩ := mem_or_of_mem_add hentry
      · exact hshadow ban (mem_cons_of_mem _ hban) entry hold haddress
      · rw [← hexpires]
        refine hnew ban hban (by rw [hip]; rfl) ?_
        rw [IpAddrOrMask.eq_fromIp_of_tryToIp hip, IpAddrOrMask.eq_fromIp_of_tryToIp haddress]
    obtain ⟨hnodup', hlisted⟩ := ih _ hfirst (nodup_add hnodup new) hshadow'
    refine ⟨hnodup', fun ban hban => ?_⟩
    obtain hban | hban := hban
    · obtain rfl | hban := mem_cons.mp hban
      · exact hlisted ban (.inr (listed_add (hshadow ban mem_cons_self)))
      · exact hlisted ban (.inl hban)
    · exact hlisted ban (.inr (hban.add new))

/-- The bans that are stored and have not expired. -/
def storedBans (bans : List BlockedIp) : List Ban :=
  (bans.filter fun ban => ban.expiresAt.all (· > (now : ℤ))).map (·.toBan)

/-- The stored bans are enforced after a start. -/
theorem enforces_parse {now : ℕ} {bans : List BlockedIp} (h : FirstLasts (storedBans now bans)) :
    (parse now bans).Enforces (storedBans now bans) := by
  obtain ⟨hnodup, hlisted⟩ := listed_foldl ⟨[], [], false⟩ h nodup_nil
    fun _ _ entry hentry => absurd hentry not_mem_nil
  rw [storedBans, foldl_map] at hnodup hlisted
  refine ⟨hnodup, fun ban hban => hlisted ban (.inl hban), fun ban hban hnetwork => ?_⟩
  have hmem := hlisted ban (.inl hban)
  rw [Listed, hnetwork] at hmem
  exact Bool.not_eq_true' _ ▸ isEmpty_eq_false_iff_exists_mem.mpr ⟨ban, hmem⟩

end BlockedIps

/-! ## Runs -/

/-- A node: what it blocks, and the time. -/
structure Node where
  ips : BlockedIps
  now : ℕ

/-- The ban that `block_ip` makes. -/
def IpSecurity.ban (ip : IpAddr) (reason : BlockReason) : Ban :=
  ⟨.fromIp ip, ((self.banPeriod reason).map (now + ·)).getD u64Max⟩

/-- The runs of a node, with the bans recorded: it starts with those stored, bans addresses itself
    and is told the bans of other nodes while time passes. Every ban satisfies `ok` when it is
    made. -/
inductive BanRun (security : IpSecurity) (ok : BlockedIps → Ban → Prop) : List Ban → Node → Prop
  | start (now : ℕ) (stored : List BlockedIp) :
      FirstLasts (storedBans now stored) →
      BanRun security ok (storedBans now stored) ⟨.parse now stored, now⟩
  | block {bans : List Ban} {node : Node} (ip : IpAddr) (reason : BlockReason) :
      BanRun security ok bans node → ok node.ips (security.ban node.now ip reason) →
      BanRun security ok (security.ban node.now ip reason :: bans)
        { node with ips := node.ips.blockIp security node.now ip reason }
  | announce {bans : List Ban} {node : Node} {ban : BlockedIp} :
      BanRun security ok bans node → expiry ban.expiresAt > node.now → ok node.ips ban.toBan →
      BanRun security ok (ban.toBan :: bans)
        { node with ips := node.ips.reloadInsert node.now ban }
  | announceExpired {bans : List Ban} {node : Node} {ban : BlockedIp} :
      BanRun security ok bans node → expiry ban.expiresAt ≤ node.now →
      BanRun security ok bans { node with ips := node.ips.reloadInsert node.now ban }
  | tick {bans : List Ban} {node : Node} {now : ℕ} :
      BanRun security ok bans node → node.now ≤ now → BanRun security ok bans { node with now }

namespace BanRun

variable {security : IpSecurity} {bans : List Ban} {node : Node}

/-- The set enforces the bans after all of them. -/
theorem enforces (h : BanRun security BlockedIps.InEffect bans node) : node.ips.Enforces bans := by
  induction h with
  | start now stored hfirst => exact enforces_parse hfirst
  | @block bans node ip reason _ hok ih =>
    have hadd := ih.add hok
    rwa [IpSecurity.ban, add, IpAddrOrMask.tryToIp_fromIp] at hadd
  | @announce bans node ban _ hlive hok ih =>
    rw [reloadInsert, if_pos hlive]
    exact ih.add hok
  | @announceExpired bans node ban _ hexpired ih =>
    rw [reloadInsert, if_neg hexpired.not_gt]
    exact ih
  | tick _ _ ih => exact ih

/-- If every ban is enforced when it is made, an address that is not allowed is blocked from each of
    its bans until the latest expires. -/
theorem blocked_until_expiry (h : BanRun security BlockedIps.InEffect bans node) {ban : Ban}
    (hban : ban ∈ bans) {ip : IpAddr} (hcovers : ban.Covers ip) (hnow : node.now < ban.expiresAt)
    (hallowed : security.isIpAllowed node.now ip = false) :
    node.ips.isIpBlocked security node.now ip = true :=
  h.enforces.isIpBlocked hban hcovers hnow hallowed

/-! ## An address that is banned twice -/

/-- Failed logins are banned for ten seconds, loitering for a minute, and nothing is allowed. -/
def tenSeconds : IpSecurity where
  allowedIpAddresses := []
  allowedIpNetworks := []
  hasAllowedNetworks := false
  authBanPeriod := some 10
  abuseBanPeriod := none
  loiterBanPeriod := some 60
  scanBanPeriod := none

/-- The address that is banned. -/
def attacker : IpAddr := .v4 0xc0000201#32

/-- The node bans the address when nothing is stored, and twenty seconds pass. -/
def bannedOnce (reason : BlockReason) : Node :=
  ⟨(parse 0 []).blockIp tenSeconds 0 attacker reason, 20⟩

theorem run_bannedOnce {ok : BlockedIps → Ban → Prop} {reason : BlockReason}
    (hok : ok (parse 0 []) (tenSeconds.ban 0 attacker reason)) :
    BanRun tenSeconds ok [tenSeconds.ban 0 attacker reason] (bannedOnce reason) :=
  .tick (.block attacker reason (.start 0 [] Pairwise.nil) hok) (Nat.zero_le 20)

/-- A ban for loitering lasts for a minute, also if a failed login follows. -/
theorem blocked_bannedTwice :
    ((bannedOnce .loitering).ips.blockIp tenSeconds 20 attacker .authFailure).isIpBlocked
      tenSeconds 59 attacker = true := by
  have hfirst : (parse 0 []).InEffect (tenSeconds.ban 0 attacker .loitering) :=
    ⟨fun entry hentry => absurd hentry not_mem_nil, by decide +kernel⟩
  have hsecond : (bannedOnce .loitering).ips.InEffect (tenSeconds.ban 20 attacker .authFailure) := by
    rw [InEffect, NotShadowed]
    decide +kernel
  have hrun := BanRun.block attacker .authFailure (run_bannedOnce hfirst) hsecond
  exact blocked_until_expiry (.tick hrun (by decide)) (mem_cons_of_mem _ mem_cons_self) rfl
    (by decide) rfl

/-- Twenty seconds later the address is banned again, and is not blocked. -/
theorem banned_again_not_blocked :
    ∃ bans node, BanRun tenSeconds (fun _ _ => True) bans node ∧
      ∃ ban ∈ bans, ban.Covers attacker ∧ node.now < ban.expiresAt ∧
        tenSeconds.isIpAllowed node.now attacker = false ∧
        node.ips.isIpBlocked tenSeconds node.now attacker = false := by
  have hrun : BanRun tenSeconds (fun _ _ => True) _ (bannedOnce .authFailure) :=
    run_bannedOnce trivial
  refine ⟨_, _, .block attacker .authFailure hrun trivial, _, mem_cons_self, rfl, ?_⟩
  decide +kernel

end BanRun

end Inworkspace
