import Segmentor.IpTexts

/-!
# Remote locations and the addresses behind them

What a mapper may point the server at: a URL is checked against the
operator's hosts, a literal address in it against the address policy, and the
addresses its name resolves to are filtered when the client connects.  Every
address that is connected to lies on the public internet, unless it is of a
kind the policy does not look for.
-/

namespace Segmentor

open General

/-! ## Checking a location -/

/-- A host as the `url` crate has parsed it. -/
inductive UrlHost
  | domain (name : Text)
  | ipv4 (address : Ipv4Addr)
  | ipv6 (address : Ipv6Addr)
  deriving DecidableEq, Repr

structure RemoteUrl where
  scheme : String
  username : String
  password : Option String
  host : Option UrlHost
  /-- The host as it is written, with the brackets of an IPv6 address. -/
  hostStr : Option Text
  deriving DecidableEq, Repr

/-- A numeric host is written in canonical form. -/
structure RemoteUrl.Canonical (url : RemoteUrl) : Prop where
  ipv4 : ∀ address, url.host = some (.ipv4 address) →
    url.hostStr = some (ipv4Text address)
  ipv6 : ∀ address, url.host = some (.ipv6 address) →
    url.hostStr = some ('[' :: ipv6Text address ++ [']'])

structure RemoteMediaConfig where
  allowedHosts : List Text
  allowInsecureHttp : Bool
  allowPrivateAddresses : Bool
  deriving DecidableEq, Repr

def toAsciiLowercase (text : Text) : Text :=
  text.map Char.toLower

/-- The operator's rules for remote media locations. -/
structure LocationPolicy where
  allowedHosts : List Text
  allowInsecureHttp : Bool
  allowPrivateAddresses : Bool
  deriving DecidableEq, Repr

def LocationPolicy.new (config : RemoteMediaConfig) : LocationPolicy where
  allowedHosts := config.allowedHosts.map toAsciiLowercase
  allowInsecureHttp := config.allowInsecureHttp
  allowPrivateAddresses := config.allowPrivateAddresses

/-- A host without the brackets of an IPv6 literal. -/
def bareHost (host : Text) : Text :=
  (host.dropWhile (· == '[')).rdropWhile (· == ']')

/-- Checks a URL before any request is made to it. -/
def LocationPolicy.checkUrl (policy : LocationPolicy) (url : RemoteUrl) :
    Except String Unit :=
  if url.scheme ≠ "https" ∧
      ¬ (url.scheme = "http" ∧ policy.allowInsecureHttp = true) then
    .error ("location scheme `" ++ url.scheme ++ "` is not permitted")
  else if url.username ≠ "" ∨ url.password.isSome then
    .error "location must not contain credentials"
  else do
    let host ← okOr url.hostStr "location has no host"
    let bare := bareHost (toAsciiLowercase host)
    if bare ∉ policy.allowedHosts then
      .error "location host is not in remote_media.allowed_hosts"
    -- Resolution is filtered on connecting, but a literal address skips it.
    else if ∃ address ∈ parseIpAddr bare,
        policy.allowPrivateAddresses = false ∧
          isPublicAddress address = false then
      .error "location address is not permitted"
    else .ok ()

/-! ## Connecting -/

/-- Drops the addresses an untrusted location must not reach. -/
def resolve (config : RemoteMediaConfig) (addresses : List IpAddr) :
    Except String (List IpAddr) :=
  let permitted := addresses.filter fun address =>
    config.allowPrivateAddresses || isPublicAddress address
  if permitted = [] then
    .error "host resolves only to addresses that are not permitted"
  else .ok permitted

/-- The addresses a URL names: the one written in it, or those its host
resolves to. -/
inductive Names (url : RemoteUrl) (resolved : List IpAddr) : IpAddr → Prop
  | ipv4 {address : Ipv4Addr} (hhost : url.host = some (.ipv4 address)) :
      Names url resolved (.v4 address)
  | ipv6 {address : Ipv6Addr} (hhost : url.host = some (.ipv6 address)) :
      Names url resolved (.v6 address)
  | domain {name : Text} {address : IpAddr}
      (hhost : url.host = some (.domain name)) (hmem : address ∈ resolved) :
      Names url resolved address

/-- The addresses the client may connect to: the one written in the URL, or
those the filter lets through. -/
inductive MayConnect (config : RemoteMediaConfig) (url : RemoteUrl)
    (resolved : List IpAddr) : IpAddr → Prop
  | ipv4 {address : Ipv4Addr} (hhost : url.host = some (.ipv4 address)) :
      MayConnect config url resolved (.v4 address)
  | ipv6 {address : Ipv6Addr} (hhost : url.host = some (.ipv6 address)) :
      MayConnect config url resolved (.v6 address)
  | domain {name : Text} {address : IpAddr} {permitted : List IpAddr}
      (hhost : url.host = some (.domain name))
      (hresolve : resolve config resolved = .ok permitted)
      (hmem : address ∈ permitted) : MayConnect config url resolved address

/-! ## A canonical host is read back -/

/-- Lower case already, and no bracket. -/
def IsBare (c : Char) : Prop :=
  c.toLower = c ∧ c ≠ '[' ∧ c ≠ ']'

instance (c : Char) : Decidable (IsBare c) :=
  inferInstanceAs (Decidable (_ ∧ _))

theorem isBare_digitChar {digit : ℕ} (h : digit < 16) :
    IsBare digit.digitChar := by
  have hall : ∀ d : Fin 16, IsBare d.val.digitChar := by decide
  exact hall ⟨digit, h⟩

theorem IsGroupChar.isBare {c : Char} (h : IsGroupChar c) : IsBare c := by
  rcases h with rfl | ⟨digit, hdigit, rfl⟩
  · decide
  · exact isBare_digitChar hdigit

theorem isBare_of_mem_ipv4Text {address : Ipv4Addr} {c : Char}
    (h : c ∈ ipv4Text address) : IsBare c := by
  have hdigits : ∀ {n : ℕ}, c ∈ Nat.toDigits 10 n → IsBare c := by
    intro n hmem
    obtain ⟨digits, htext, hlt, -, -⟩ := exists_writes (by norm_num : 1 < 10) n
    rw [htext] at hmem
    obtain ⟨digit, hdigit, rfl⟩ := List.mem_map.mp hmem
    exact isBare_digitChar ((hlt digit hdigit).trans (by norm_num))
  simp only [ipv4Text, List.mem_append, List.mem_cons] at h
  rcases h with h | rfl | h | rfl | h | rfl | h
  · exact hdigits h
  · decide
  · exact hdigits h
  · decide
  · exact hdigits h
  · decide
  · exact hdigits h

theorem toAsciiLowercase_eq {text : Text} (h : ∀ c ∈ text, IsBare c) :
    toAsciiLowercase text = text := by
  unfold toAsciiLowercase
  rw [List.map_congr_left fun c hc => (h c hc).1]
  exact List.map_id text

theorem dropWhile_append_bare {text rest : Text} (h : ∀ c ∈ text, IsBare c)
    (hrest : ∀ c ∈ rest.head?, c ≠ '[') :
    (text ++ rest).dropWhile (· == '[') = text ++ rest := by
  cases text with
  | nil =>
      cases rest with
      | nil => rfl
      | cons c rest => exact List.dropWhile_cons_of_neg (by simpa using hrest c rfl)
  | cons c text =>
      exact List.dropWhile_cons_of_neg (by simpa using (h c (by simp)).2.1)

theorem rdropWhile_bare {text : Text} (h : ∀ c ∈ text, IsBare c) :
    text.rdropWhile (· == ']') = text := by
  rw [List.rdropWhile_eq_self_iff]
  intro hne
  simpa using (h _ (List.getLast_mem hne)).2.2

theorem bareHost_bare {text : Text} (h : ∀ c ∈ text, IsBare c) :
    bareHost (toAsciiLowercase text) = text := by
  have hdrop := @dropWhile_append_bare text [] h (by simp)
  rw [List.append_nil] at hdrop
  rw [toAsciiLowercase_eq h, bareHost, hdrop, rdropWhile_bare h]

theorem bareHost_bracketed {text : Text} (h : ∀ c ∈ text, IsBare c) :
    bareHost (toAsciiLowercase ('[' :: text ++ [']'])) = text := by
  have hlower : toAsciiLowercase ('[' :: text ++ [']']) =
      '[' :: (text ++ [']']) := by
    have hsame := toAsciiLowercase_eq h
    unfold toAsciiLowercase at hsame ⊢
    rw [List.cons_append, List.map_cons, List.map_append, hsame]
    rfl
  rw [hlower, bareHost, List.dropWhile_cons_of_pos (by rfl),
    dropWhile_append_bare h (by simp), List.rdropWhile_concat_pos _ _ _ (by rfl),
    rdropWhile_bare h]

/-! ## Reaching only the internet -/

/-- What an accepted URL's host is when it is an address. -/
theorem isPublicAddress_of_checkUrl {policy : LocationPolicy} {url : RemoteUrl}
    (hoff : policy.allowPrivateAddresses = false)
    (hok : policy.checkUrl url = .ok ()) {host : Text}
    (hhost : url.hostStr = some host) {address : IpAddr}
    (hparse : parseIpAddr (bareHost (toAsciiLowercase host)) = some address) :
    isPublicAddress address = true := by
  unfold LocationPolicy.checkUrl at hok
  split at hok
  · cases hok
  split at hok
  · cases hok
  rw [hhost, okOr_some, ok_bind] at hok
  dsimp only at hok
  split at hok
  · cases hok
  split at hok
  · cases hok
  · next hallowed =>
      rw [hparse] at hallowed
      by_contra hprivate
      exact hallowed ⟨address, rfl, hoff, Bool.eq_false_iff.mpr hprivate⟩

section Reached

variable {config : RemoteMediaConfig} {url : RemoteUrl} {resolved : List IpAddr}

theorem mayConnect_iff (hoff : config.allowPrivateAddresses = false)
    (hcanonical : url.Canonical)
    (hok : (LocationPolicy.new config).checkUrl url = .ok ())
    (address : IpAddr) :
    MayConnect config url resolved address ↔
      Names url resolved address ∧ isPublicAddress address = true := by
  have hfilter : (resolved.filter fun address =>
      config.allowPrivateAddresses || isPublicAddress address) =
        resolved.filter isPublicAddress := by
    rw [hoff]
    rfl
  constructor
  · rintro (hhost | hhost | ⟨hhost, hresolve, hmem⟩)
    · refine ⟨.ipv4 hhost, ?_⟩
      apply isPublicAddress_of_checkUrl hoff hok (hcanonical.ipv4 _ hhost)
      rw [bareHost_bare fun c => isBare_of_mem_ipv4Text]
      exact parseIpAddr_ipv4Text _
    · refine ⟨.ipv6 hhost, ?_⟩
      apply isPublicAddress_of_checkUrl hoff hok (hcanonical.ipv6 _ hhost)
      rw [bareHost_bracketed fun c hc => (isGroupChar_of_mem_ipv6Text hc).isBare]
      exact parseIpAddr_ipv6Text _
    · unfold resolve at hresolve
      rw [hfilter] at hresolve
      dsimp only at hresolve
      split at hresolve
      · cases hresolve
      obtain rfl := Except.ok.inj hresolve
      obtain ⟨hmem, hpublic⟩ := List.mem_filter.mp hmem
      exact ⟨.domain hhost hmem, hpublic⟩
  · rintro ⟨hhost | hhost | ⟨hhost, hmem⟩, hpublic⟩
    · exact .ipv4 hhost
    · exact .ipv6 hhost
    · have hpermitted : address ∈ resolved.filter isPublicAddress :=
        List.mem_filter.mpr ⟨hmem, hpublic⟩
      refine .domain hhost ?_ hpermitted
      unfold resolve
      rw [hfilter]
      exact if_neg (List.ne_nil_of_mem hpermitted)

/-- Only addresses of the internet are connected to, exactly where the URL
names none of the kinds that are not looked for. -/
theorem connects_to_internet_iff (hoff : config.allowPrivateAddresses = false)
    (hcanonical : url.Canonical)
    (hok : (LocationPolicy.new config).checkUrl url = .ok ()) :
    (∀ address, MayConnect config url resolved address →
        address.OnInternet) ↔
      ∀ address, Names url resolved address → ¬ address.Overlooked := by
  have hconnect := @mayConnect_iff config url resolved hoff hcanonical hok
  constructor
  · intro h address hnames hoverlooked
    have hpublic := isPublicAddress_of_overlooked hoverlooked
    have honline := h address ((hconnect address).mpr ⟨hnames, hpublic⟩)
    exact (onInternet_iff hpublic).mp honline hoverlooked
  · intro h address hreached
    obtain ⟨hnames, hpublic⟩ := (hconnect address).mp hreached
    exact (onInternet_iff hpublic).mpr (h address hnames)

end Reached

/-! ## A name that resolves to the loopback address behind a translator -/

def originOnly : RemoteMediaConfig where
  allowedHosts := ["origin.example.net".toList]
  allowInsecureHttp := false
  allowPrivateAddresses := false

def originUrl : RemoteUrl where
  scheme := "https"
  username := ""
  password := none
  host := some (.domain "origin.example.net".toList)
  hostStr := some "origin.example.net".toList

def translatedLoopback : IpAddr :=
  .v6 (.new 0x64 0xff9b 0 0 0 0 0x7f00 1)

theorem translated_loopback_connected :
    (LocationPolicy.new originOnly).checkUrl originUrl = .ok () ∧
      ¬ ∀ address,
        MayConnect originOnly originUrl [translatedLoopback] address →
          address.OnInternet := by
  refine ⟨by decide, fun h => ?_⟩
  have honline := h translatedLoopback
    (.domain rfl (by decide : resolve originOnly [translatedLoopback] =
      .ok [translatedLoopback]) List.mem_cons_self)
  have hloopback : ¬ Ipv4Addr.OnInternet ⟨127, 0, 0, 1⟩ := by
    intro hpublic
    exact absurd ((isPublicV4_iff _).mpr hpublic) (by decide)
  exact honline.2 .nat64 (by simp [carriers])
    ⟨by decide, hloopback⟩

/-- What the origin's name may resolve to: an IPv6 and an IPv4 address of the
internet, and one of the server's own network. -/
def originAddresses : List IpAddr :=
  [.v6 (.new 0x2606 0x4700 0x4700 0 0 0 0 0x1111), .v4 ⟨1, 1, 1, 1⟩,
    .v4 ⟨10, 0, 0, 1⟩]

theorem connects_to_internet_iff_resolved :
    MayConnect originOnly originUrl originAddresses (.v4 ⟨1, 1, 1, 1⟩) ∧
      ∀ address, MayConnect originOnly originUrl originAddresses address →
        address.OnInternet := by
  have hcanonical : originUrl.Canonical := by
    constructor
    · intro address hhost
      cases hhost
    · intro address hhost
      cases hhost
  refine ⟨.domain rfl (by decide : resolve originOnly originAddresses =
    .ok (originAddresses.take 2)) (by decide), ?_⟩
  apply (connects_to_internet_iff rfl hcanonical (by decide)).mpr
  rintro address (hhost | hhost | ⟨-, hmem⟩)
  · cases hhost
  · cases hhost
  · simp only [originAddresses, List.mem_cons, List.not_mem_nil, or_false]
      at hmem
    rcases hmem with rfl | rfl | rfl
    · rintro (hdocumented | ⟨hcarried, -⟩ | ⟨hcarried, -⟩ | ⟨⟨hcarried, -⟩, -⟩)
      · exact absurd hdocumented (by decide)
      · exact absurd hcarried (by decide)
      · exact absurd hcarried (by decide)
      · exact absurd hcarried (by decide)
    · exact not_false
    · exact not_false

end Segmentor
