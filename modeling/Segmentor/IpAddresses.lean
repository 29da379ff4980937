import Segmentor.General.Blocks

/-!
# Addresses of the public internet

IP addresses as the standard library has them, what the server takes for a
public one, and the blocks that are not: an address in a special block, or one
that carries an IPv4 address of a special block.  The server unwraps one of
the four ways of carrying an address.
-/

namespace Segmentor

open General

/-! ## Addresses -/

structure Ipv4Addr where
  a : UInt8
  b : UInt8
  c : UInt8
  d : UInt8
  deriving DecidableEq, Repr

/-- Eight segments of sixteen bits. -/
structure Ipv6Addr where
  segments : List UInt16
  length_eq : segments.length = 8
  deriving DecidableEq, Repr

def Ipv6Addr.new (s t u v w x y z : UInt16) : Ipv6Addr where
  segments := [s, t, u, v, w, x, y, z]
  length_eq := rfl

inductive IpAddr
  | v4 (address : Ipv4Addr)
  | v6 (address : Ipv6Addr)
  deriving DecidableEq, Repr

def Ipv6Addr.segment (address : Ipv6Addr) (i : Fin 8) : UInt16 :=
  address.segments.get (i.cast address.length_eq.symm)

/-- The IPv4 address two segments say. -/
def Ipv4Addr.ofSegments (high low : UInt16) : Ipv4Addr where
  a := (high / 256).toUInt8
  b := (high % 256).toUInt8
  c := (low / 256).toUInt8
  d := (low % 256).toUInt8

/-! ## What the server takes for public -/

def isPublicV4 (address : Ipv4Addr) : Bool :=
  let ⟨a, b, c, _⟩ := address
  !(address = ⟨0, 0, 0, 0⟩ ||
    a = 127 ||
    (a = 10 || (a = 172 && 16 ≤ b && b ≤ 31) || (a = 192 && b = 168)) ||
    (a = 169 && b = 254) ||
    address = ⟨255, 255, 255, 255⟩ ||
    (224 ≤ a && a ≤ 239) ||
    ((a = 192 && b = 0 && c = 2) || (a = 198 && b = 51 && c = 100) ||
      (a = 203 && b = 0 && c = 113)) ||
    a = 0 ||
    (a = 100 && b &&& 0xc0 = 64) ||
    (a = 192 && b = 0 && c = 0) ||
    (a = 198 && b &&& 0xfe = 18) ||
    240 ≤ a)

def isPublicV6 (address : Ipv6Addr) : Bool :=
  let first := address.segment 0
  !(address.segments = [0, 0, 0, 0, 0, 0, 0, 0] ||
    address.segments = [0, 0, 0, 0, 0, 0, 0, 1] ||
    first &&& 0xff00 = 0xff00 ||
    first &&& 0xfe00 = 0xfc00 ||
    first &&& 0xffc0 = 0xfe80 ||
    (first = 0x2001 && address.segment 1 = 0x0db8))

/-- The address behind `::ffff:0:0/96`. -/
def Ipv6Addr.toIpv4Mapped (address : Ipv6Addr) : Option Ipv4Addr :=
  match address.segments with
  | [0, 0, 0, 0, 0, 0xffff, high, low] => some (.ofSegments high low)
  | _ => none

/-- Whether the server may read from an address. -/
def isPublicAddress : IpAddr → Bool
  | .v4 address => isPublicV4 address
  | .v6 address =>
      match address.toIpv4Mapped with
      | some mapped => isPublicV4 mapped
      | none => isPublicV6 address

/-! ## The public internet -/

def Ipv4Addr.toNat (address : Ipv4Addr) : ℕ :=
  ((address.a.toNat * 256 + address.b.toNat) * 256 + address.c.toNat) * 256 +
    address.d.toNat

def Ipv6Addr.toNat (address : Ipv6Addr) : ℕ :=
  address.segments.foldl (fun n segment => n * 65536 + segment.toNat) 0

def v4Block (a b c d : UInt8) (length : ℕ) : Block :=
  ⟨Ipv4Addr.toNat ⟨a, b, c, d⟩, length⟩

def v6Block (address : Ipv6Addr) (length : ℕ) : Block :=
  ⟨address.toNat, length⟩

/-- Unspecified, private, shared, loopback, link-local, protocol assignments,
documentation, benchmarking, multicast and reserved. -/
def specialV4 : List Block :=
  [v4Block 0 0 0 0 8, v4Block 10 0 0 0 8, v4Block 172 16 0 0 12,
    v4Block 192 168 0 0 16, v4Block 100 64 0 0 10, v4Block 127 0 0 0 8,
    v4Block 169 254 0 0 16, v4Block 192 0 0 0 24, v4Block 192 0 2 0 24,
    v4Block 198 51 100 0 24, v4Block 203 0 113 0 24, v4Block 198 18 0 0 15,
    v4Block 224 0 0 0 4, v4Block 240 0 0 0 4]

/-- Unspecified, loopback, unique-local, link-local, multicast and the older
documentation block: those the server tests for. -/
def testedV6 : List Block :=
  [v6Block (.new 0 0 0 0 0 0 0 0) 128, v6Block (.new 0 0 0 0 0 0 0 1) 128,
    v6Block (.new 0xff00 0 0 0 0 0 0 0) 8,
    v6Block (.new 0xfc00 0 0 0 0 0 0 0) 7,
    v6Block (.new 0xfe80 0 0 0 0 0 0 0) 10,
    v6Block (.new 0x2001 0xdb8 0 0 0 0 0 0) 32]

/-- The newer documentation block. -/
def documentationV6 : Block :=
  v6Block (.new 0x3fff 0 0 0 0 0 0 0) 20

def Ipv4Addr.OnInternet (address : Ipv4Addr) : Prop :=
  ∀ block ∈ specialV4, ¬ block.Contains 32 address.toNat

/-- A way to carry an IPv4 address in an IPv6 address. -/
structure Carrier where
  block : Block
  carried : Ipv6Addr → Ipv4Addr

def Carrier.mapped : Carrier where
  block := v6Block (.new 0 0 0 0 0 0xffff 0 0) 96
  carried address := .ofSegments (address.segment 6) (address.segment 7)

def Carrier.compatible : Carrier where
  block := v6Block (.new 0 0 0 0 0 0 0 0) 96
  carried address := .ofSegments (address.segment 6) (address.segment 7)

def Carrier.nat64 : Carrier where
  block := v6Block (.new 0x64 0xff9b 0 0 0 0 0 0) 96
  carried address := .ofSegments (address.segment 6) (address.segment 7)

def Carrier.sixToFour : Carrier where
  block := v6Block (.new 0x2002 0 0 0 0 0 0 0) 16
  carried address := .ofSegments (address.segment 1) (address.segment 2)

def Carrier.CarriesSpecial (carrier : Carrier) (address : Ipv6Addr) : Prop :=
  carrier.block.Contains 128 address.toNat ∧
    ¬ (carrier.carried address).OnInternet

def carriers : List Carrier :=
  [.mapped, .compatible, .nat64, .sixToFour]

/-- An address of the public internet, and not one that carries an address
which is not. -/
def IpAddr.OnInternet : IpAddr → Prop
  | .v4 address => address.OnInternet
  | .v6 address =>
      (∀ block ∈ documentationV6 :: testedV6,
        ¬ block.Contains 128 address.toNat) ∧
        ∀ carrier ∈ carriers, ¬ carrier.CarriesSpecial address

/-- What the server does not look for: the newer documentation block, and
what the other three carriers carry. -/
def IpAddr.Overlooked : IpAddr → Prop
  | .v4 _ => False
  | .v6 address =>
      documentationV6.Contains 128 address.toNat ∨
        Carrier.nat64.CarriesSpecial address ∨
        Carrier.sixToFour.CarriesSpecial address ∨
        Carrier.compatible.CarriesSpecial address ∧
          address ≠ .new 0 0 0 0 0 0 0 0 ∧ address ≠ .new 0 0 0 0 0 0 0 1

/-! ## IPv4 -/

section Octets

variable {a b c d x y z : UInt8}

theorem contains_eight :
    (v4Block x 0 0 0 8).Contains 32 (Ipv4Addr.toNat ⟨a, b, c, d⟩) ↔ a = x := by
  have hb := b.toNat_lt
  have hc := c.toNat_lt
  have hd := d.toNat_lt
  rw [← UInt8.toNat_inj]
  simp only [v4Block, Block.Contains, Ipv4Addr.toNat, UInt8.toNat_zero]
  omega

theorem contains_sixteen :
    (v4Block x y 0 0 16).Contains 32 (Ipv4Addr.toNat ⟨a, b, c, d⟩) ↔
      a = x ∧ b = y := by
  have hb := b.toNat_lt
  have hc := c.toNat_lt
  have hd := d.toNat_lt
  have hy := y.toNat_lt
  rw [← UInt8.toNat_inj, ← UInt8.toNat_inj]
  simp only [v4Block, Block.Contains, Ipv4Addr.toNat, UInt8.toNat_zero]
  omega

theorem contains_twentyFour :
    (v4Block x y z 0 24).Contains 32 (Ipv4Addr.toNat ⟨a, b, c, d⟩) ↔
      a = x ∧ b = y ∧ c = z := by
  have hb := b.toNat_lt
  have hc := c.toNat_lt
  have hd := d.toNat_lt
  have hy := y.toNat_lt
  have hz := z.toNat_lt
  rw [← UInt8.toNat_inj, ← UInt8.toNat_inj, ← UInt8.toNat_inj]
  simp only [v4Block, Block.Contains, Ipv4Addr.toNat, UInt8.toNat_zero]
  omega

theorem contains_private :
    (v4Block 172 16 0 0 12).Contains 32 (Ipv4Addr.toNat ⟨a, b, c, d⟩) ↔
      a = 172 ∧ 16 ≤ b ∧ b ≤ 31 := by
  have hb := b.toNat_lt
  have hc := c.toNat_lt
  have hd := d.toNat_lt
  rw [← UInt8.toNat_inj, UInt8.le_iff_toNat_le, UInt8.le_iff_toNat_le]
  simp only [v4Block, Block.Contains, Ipv4Addr.toNat, UInt8.reduceToNat]
  omega

/-- The shared block, by the mask the server tests with. -/
theorem contains_shared :
    (v4Block 100 64 0 0 10).Contains 32 (Ipv4Addr.toNat ⟨a, b, c, d⟩) ↔
      a = 100 ∧ b &&& 0xc0 = 64 := by
  have hb := b.toNat_lt
  have hc := c.toNat_lt
  have hd := d.toNat_lt
  have hmask : b.toNat &&& 0xc0 = 64 ↔ b.toNat / 2 ^ 6 = 1 :=
    @and_mask_eq_iff 8 6 _ 1 (by norm_num) hb
  rw [← UInt8.toNat_inj, ← UInt8.toNat_inj, UInt8.toNat_and]
  simp only [UInt8.reduceToNat, hmask]
  simp only [v4Block, Block.Contains, Ipv4Addr.toNat, UInt8.reduceToNat]
  omega

theorem contains_benchmarking :
    (v4Block 198 18 0 0 15).Contains 32 (Ipv4Addr.toNat ⟨a, b, c, d⟩) ↔
      a = 198 ∧ b &&& 0xfe = 18 := by
  have hb := b.toNat_lt
  have hc := c.toNat_lt
  have hd := d.toNat_lt
  have hmask : b.toNat &&& 0xfe = 18 ↔ b.toNat / 2 ^ 1 = 9 :=
    @and_mask_eq_iff 8 1 _ 9 (by norm_num) hb
  rw [← UInt8.toNat_inj, ← UInt8.toNat_inj, UInt8.toNat_and]
  simp only [UInt8.reduceToNat, hmask]
  simp only [v4Block, Block.Contains, Ipv4Addr.toNat, UInt8.reduceToNat]
  omega

theorem contains_multicast :
    (v4Block 224 0 0 0 4).Contains 32 (Ipv4Addr.toNat ⟨a, b, c, d⟩) ↔
      224 ≤ a ∧ a ≤ 239 := by
  have hb := b.toNat_lt
  have hc := c.toNat_lt
  have hd := d.toNat_lt
  rw [UInt8.le_iff_toNat_le, UInt8.le_iff_toNat_le]
  simp only [v4Block, Block.Contains, Ipv4Addr.toNat, UInt8.reduceToNat]
  omega

theorem contains_reserved :
    (v4Block 240 0 0 0 4).Contains 32 (Ipv4Addr.toNat ⟨a, b, c, d⟩) ↔
      240 ≤ a := by
  have ha := a.toNat_lt
  have hb := b.toNat_lt
  have hc := c.toNat_lt
  have hd := d.toNat_lt
  rw [UInt8.le_iff_toNat_le]
  simp only [v4Block, Block.Contains, Ipv4Addr.toNat, UInt8.reduceToNat]
  omega

end Octets

theorem isPublicV4_iff (address : Ipv4Addr) :
    isPublicV4 address = true ↔ address.OnInternet := by
  obtain ⟨a, b, c, d⟩ := address
  simp only [Ipv4Addr.OnInternet, specialV4, List.forall_mem_cons,
    List.not_mem_nil, IsEmpty.forall_iff, implies_true, and_true,
    contains_eight, contains_sixteen, contains_twentyFour, contains_private,
    contains_shared, contains_benchmarking, contains_multicast,
    contains_reserved]
  simp only [isPublicV4, Bool.not_eq_true', ← Bool.not_eq_true]
  simp only [Bool.or_eq_true, Bool.and_eq_true, decide_eq_true_eq,
    Ipv4Addr.mk.injEq, not_or, and_assoc]
  constructor
  · rintro ⟨-, hloopback, hten, hprivate, hlocal, hlink, -, hmulticast,
      hfirst, hsecond, hthird, hzero, hshared, hprotocol, hbench, hreserved⟩
    exact ⟨hzero, hten, hprivate, hlocal, hshared, hloopback, hlink, hprotocol,
      hfirst, hsecond, hthird, hbench, hmulticast, hreserved⟩
  · rintro ⟨hzero, hten, hprivate, hlocal, hshared, hloopback, hlink,
      hprotocol, hfirst, hsecond, hthird, hbench, hmulticast, hreserved⟩
    have hbroadcast : ¬ (a = 255 ∧ b = 255 ∧ c = 255 ∧ d = 255) := by
      rintro ⟨rfl, -⟩
      exact hreserved (by decide)
    exact ⟨fun h => hzero h.1, hloopback, hten, hprivate, hlocal, hlink,
      hbroadcast, hmulticast, hfirst, hsecond, hthird, hzero, hshared,
      hprotocol, hbench, hreserved⟩

/-! ## IPv6 -/

theorem Ipv6Addr.exists_new (address : Ipv6Addr) :
    ∃ s t u v w x y z, address = .new s t u v w x y z := by
  obtain ⟨segments, hlength⟩ := address
  match segments, hlength with
  | [s, t, u, v, w, x, y, z], _ => exact ⟨s, t, u, v, w, x, y, z, rfl⟩

section Segments

variable {s t u v w x y z k l m n o p q r : UInt16}

theorem toNat_new : (Ipv6Addr.new s t u v w x y z).toNat =
    ((((((s.toNat * 65536 + t.toNat) * 65536 + u.toNat) * 65536 +
      v.toNat) * 65536 + w.toNat) * 65536 + x.toNat) * 65536 + y.toNat) *
        65536 + z.toNat := by
  simp [Ipv6Addr.toNat, Ipv6Addr.new]

/-- The first segment. -/
theorem toNat_div_first :
    (Ipv6Addr.new s t u v w x y z).toNat / 2 ^ 112 = s.toNat := by
  have ht := t.toNat_lt
  have hu := u.toNat_lt
  have hv := v.toNat_lt
  have hw := w.toNat_lt
  have hx := x.toNat_lt
  have hy := y.toNat_lt
  have hz := z.toNat_lt
  rw [toNat_new]
  omega

theorem contains_lead {length : ℕ} (hlength : length ≤ 16) :
    (v6Block (.new k l m n o p q r) length).Contains 128
        (Ipv6Addr.new s t u v w x y z).toNat ↔
      s.toNat / 2 ^ (16 - length) = k.toNat / 2 ^ (16 - length) := by
  have hpow : 2 ^ (128 - length) = 2 ^ 112 * 2 ^ (16 - length) := by
    rw [← Nat.pow_add]
    congr 1
    omega
  unfold Block.Contains v6Block
  dsimp only
  rw [hpow, ← Nat.div_div_eq_div_mul, ← Nat.div_div_eq_div_mul,
    toNat_div_first, toNat_div_first]

theorem contains_pair :
    (v6Block (.new k l m n o p q r) 32).Contains 128
        (Ipv6Addr.new s t u v w x y z).toNat ↔ s = k ∧ t = l := by
  have hsecond : ∀ a b c d e f g h : UInt16,
      (Ipv6Addr.new a b c d e f g h).toNat / 2 ^ 96 =
        a.toNat * 65536 + b.toNat := by
    intro a b c d e f g h
    have hc := c.toNat_lt
    have hd := d.toNat_lt
    have he := e.toNat_lt
    have hf := f.toNat_lt
    have hg := g.toNat_lt
    have hh := h.toNat_lt
    rw [toNat_new]
    omega
  have ht := t.toNat_lt
  have hl := l.toNat_lt
  unfold Block.Contains v6Block
  simp only [Nat.reduceSub, hsecond, ← UInt16.toNat_inj]
  omega

theorem contains_documentation :
    documentationV6.Contains 128 (Ipv6Addr.new s t u v w x y z).toNat ↔
      s = 0x3fff ∧ t.toNat < 4096 := by
  have ht := t.toNat_lt
  have hu := u.toNat_lt
  have hv := v.toNat_lt
  have hw := w.toNat_lt
  have hx := x.toNat_lt
  have hy := y.toNat_lt
  have hz := z.toNat_lt
  rw [← UInt16.toNat_inj]
  simp only [documentationV6, v6Block, Block.Contains, toNat_new,
    UInt16.reduceToNat]
  omega

theorem contains_six :
    (v6Block (.new k l m n o p q r) 96).Contains 128
        (Ipv6Addr.new s t u v w x y z).toNat ↔
      s = k ∧ t = l ∧ u = m ∧ v = n ∧ w = o ∧ x = p := by
  have hsixth : ∀ a b c d e f g h : UInt16,
      (Ipv6Addr.new a b c d e f g h).toNat / 2 ^ 32 =
        ((((a.toNat * 65536 + b.toNat) * 65536 + c.toNat) * 65536 +
          d.toNat) * 65536 + e.toNat) * 65536 + f.toNat := by
    intro a b c d e f g h
    have hg := g.toNat_lt
    have hh := h.toNat_lt
    rw [toNat_new]
    omega
  have ht := t.toNat_lt
  have hu := u.toNat_lt
  have hv := v.toNat_lt
  have hw := w.toNat_lt
  have hx := x.toNat_lt
  have hl := l.toNat_lt
  have hm := m.toNat_lt
  have hn := n.toNat_lt
  have ho := o.toNat_lt
  have hp := p.toNat_lt
  unfold Block.Contains v6Block
  simp only [Nat.reduceSub, hsixth, ← UInt16.toNat_inj]
  omega

/-- A block of one address. -/
theorem contains_whole {address other : Ipv6Addr} :
    (v6Block other 128).Contains 128 address.toNat ↔ address = other := by
  obtain ⟨s, t, u, v, w, x, y, z, rfl⟩ := address.exists_new
  obtain ⟨k, l, m, n, o, p, q, r, rfl⟩ := other.exists_new
  have hsame : Ipv6Addr.new s t u v w x y z = .new k l m n o p q r ↔
      s = k ∧ t = l ∧ u = m ∧ v = n ∧ w = o ∧ x = p ∧ y = q ∧ z = r := by
    simp [Ipv6Addr.new]
  have ht := t.toNat_lt
  have hu := u.toNat_lt
  have hv := v.toNat_lt
  have hw := w.toNat_lt
  have hx := x.toNat_lt
  have hy := y.toNat_lt
  have hz := z.toNat_lt
  have hl := l.toNat_lt
  have hm := m.toNat_lt
  have hn := n.toNat_lt
  have ho := o.toNat_lt
  have hp := p.toNat_lt
  have hq := q.toNat_lt
  have hr := r.toNat_lt
  rw [hsame]
  unfold Block.Contains v6Block
  simp only [Nat.sub_self, Nat.pow_zero, Nat.div_one, toNat_new,
    ← UInt16.toNat_inj]
  omega

end Segments

theorem isPublicV6_iff (address : Ipv6Addr) :
    isPublicV6 address = true ↔
      ∀ block ∈ testedV6, ¬ block.Contains 128 address.toNat := by
  obtain ⟨s, t, u, v, w, x, y, z, rfl⟩ := address.exists_new
  have hs := s.toNat_lt
  have hmulticast : s &&& 0xff00 = 0xff00 ↔ s.toNat / 2 ^ 8 = 0xff := by
    rw [← UInt16.toNat_inj, UInt16.toNat_and]
    exact @and_mask_eq_iff 16 8 _ 0xff (by norm_num) hs
  have hunique : s &&& 0xfe00 = 0xfc00 ↔ s.toNat / 2 ^ 9 = 0x7e := by
    rw [← UInt16.toNat_inj, UInt16.toNat_and]
    exact @and_mask_eq_iff 16 9 _ 0x7e (by norm_num) hs
  have hlink : s &&& 0xffc0 = 0xfe80 ↔ s.toNat / 2 ^ 6 = 0x3fa := by
    rw [← UInt16.toNat_inj, UInt16.toNat_and]
    exact @and_mask_eq_iff 16 6 _ 0x3fa (by norm_num) hs
  have hsame : ∀ other : Ipv6Addr,
      (Ipv6Addr.new s t u v w x y z).segments = other.segments ↔
        Ipv6Addr.new s t u v w x y z = other := by
    intro other
    cases other
    simp [Ipv6Addr.new]
  have hunspecified := hsame (.new 0 0 0 0 0 0 0 0)
  have hloopback := hsame (.new 0 0 0 0 0 0 0 1)
  simp only [testedV6, List.forall_mem_cons, List.not_mem_nil,
    IsEmpty.forall_iff, implies_true, and_true, contains_whole, contains_pair,
    contains_lead (by norm_num : 7 ≤ 16), contains_lead (by norm_num : 8 ≤ 16),
    contains_lead (by norm_num : 10 ≤ 16), ← hunspecified, ← hloopback]
  simp only [isPublicV6, Bool.not_eq_true', ← Bool.not_eq_true]
  simp only [Bool.or_eq_true, Bool.and_eq_true, decide_eq_true_eq, not_or,
    and_assoc]
  change _ ∧ _ ∧ ¬ s &&& 0xff00 = 0xff00 ∧ ¬ s &&& 0xfe00 = 0xfc00 ∧
    ¬ s &&& 0xffc0 = 0xfe80 ∧ ¬ (s = 0x2001 ∧ t = 0xdb8) ↔ _
  rw [hmulticast, hunique, hlink]
  rfl

theorem toIpv4Mapped_eq_some_iff {address : Ipv6Addr} {v4 : Ipv4Addr} :
    address.toIpv4Mapped = some v4 ↔
      Carrier.mapped.block.Contains 128 address.toNat ∧
        Carrier.mapped.carried address = v4 := by
  obtain ⟨s, t, u, v, w, x, y, z, rfl⟩ := address.exists_new
  simp only [Carrier.mapped, contains_six]
  unfold Ipv6Addr.toIpv4Mapped
  constructor
  · intro h
    split at h
    · next high low hsegments =>
        simp only [Ipv6Addr.new, List.cons.injEq, and_true] at hsegments
        obtain ⟨rfl, rfl, rfl, rfl, rfl, rfl, rfl, rfl⟩ := hsegments
        exact ⟨⟨rfl, rfl, rfl, rfl, rfl, rfl⟩, Option.some.inj h⟩
    · cases h
  · rintro ⟨⟨rfl, rfl, rfl, rfl, rfl, rfl⟩, rfl⟩
    rfl

section Overlooked

variable {s t u v w x y z : UInt16}

theorem not_tested (hs : s.toNat < 0xfc00) (hdocumentation : s ≠ 0x2001)
    (hunspecified :
      Ipv6Addr.new s t u v w x y z ≠ .new 0 0 0 0 0 0 0 0)
    (hloopback : Ipv6Addr.new s t u v w x y z ≠ .new 0 0 0 0 0 0 0 1) :
    ∀ block ∈ testedV6,
      ¬ block.Contains 128 (Ipv6Addr.new s t u v w x y z).toNat := by
  simp only [testedV6, List.forall_mem_cons, List.not_mem_nil,
    IsEmpty.forall_iff, implies_true, and_true, contains_whole, contains_pair,
    contains_lead (by norm_num : 7 ≤ 16), contains_lead (by norm_num : 8 ≤ 16),
    contains_lead (by norm_num : 10 ≤ 16), UInt16.reduceToNat]
  refine ⟨hunspecified, hloopback, ?_, ?_, ?_, fun h => hdocumentation h.1⟩
  · omega
  · omega
  · omega

theorem new_ne_of_first {other : UInt16} (h : s ≠ 0) :
    Ipv6Addr.new s t u v w x y z ≠ .new 0 0 0 0 0 0 0 other := by
  intro hsame
  simp only [Ipv6Addr.new, Ipv6Addr.mk.injEq, List.cons.injEq] at hsame
  exact h hsame.1

/-- What is overlooked is let through. -/
theorem isPublicAddress_of_overlooked {address : IpAddr}
    (h : address.Overlooked) : isPublicAddress address = true := by
  cases address with
  | v4 address => cases h
  | v6 address =>
      have hpublic : address.toIpv4Mapped = none →
          (∀ block ∈ testedV6, ¬ block.Contains 128 address.toNat) →
          isPublicAddress (.v6 address) = true := by
        intro hmapped htested
        rw [isPublicAddress, hmapped]
        exact (isPublicV6_iff address).mpr htested
      have hmapped : ¬ Carrier.mapped.block.Contains 128 address.toNat →
          address.toIpv4Mapped = none := by
        intro hnot
        apply Option.eq_none_iff_forall_ne_some.mpr
        intro v4 hv4
        exact hnot (toIpv4Mapped_eq_some_iff.mp hv4).1
      obtain ⟨s, t, u, v, w, x, y, z, rfl⟩ := address.exists_new
      rcases h with hdoc | ⟨hnat, -⟩ | ⟨hsix, -⟩ | ⟨⟨hcompat, -⟩, hne, hone⟩
      · obtain ⟨rfl, -⟩ := contains_documentation.mp hdoc
        apply hpublic
        · apply hmapped
          simp [Carrier.mapped, contains_six]
        · exact not_tested (by decide) (by decide)
            (new_ne_of_first (by decide)) (new_ne_of_first (by decide))
      · simp only [Carrier.nat64, contains_six] at hnat
        obtain ⟨rfl, -⟩ := hnat
        apply hpublic
        · apply hmapped
          simp [Carrier.mapped, contains_six]
        · exact not_tested (by decide) (by decide)
            (new_ne_of_first (by decide)) (new_ne_of_first (by decide))
      · simp only [Carrier.sixToFour, contains_lead le_rfl] at hsix
        obtain rfl : s = 0x2002 := UInt16.toNat_inj.mp (by simpa using hsix)
        apply hpublic
        · apply hmapped
          simp [Carrier.mapped, contains_six]
        · exact not_tested (by decide) (by decide)
            (new_ne_of_first (by decide)) (new_ne_of_first (by decide))
      · simp only [Carrier.compatible, contains_six] at hcompat
        obtain ⟨rfl, rfl, rfl, rfl, rfl, rfl⟩ := hcompat
        apply hpublic
        · apply hmapped
          simp [Carrier.mapped, contains_six]
        · exact not_tested (by decide) (by decide) hne hone

/-- A mapped address lies in no other block. -/
theorem mapped_apart {address : Ipv6Addr}
    (h : Carrier.mapped.block.Contains 128 address.toNat) :
    (∀ block ∈ documentationV6 :: testedV6,
        ¬ block.Contains 128 address.toNat) ∧
      ∀ carrier ∈ [Carrier.compatible, .nat64, .sixToFour],
        ¬ carrier.block.Contains 128 address.toNat := by
  obtain ⟨s, t, u, v, w, x, y, z, rfl⟩ := address.exists_new
  simp only [Carrier.mapped, contains_six] at h
  obtain ⟨rfl, rfl, rfl, rfl, rfl, rfl⟩ := h
  have hapart : ∀ other : UInt16,
      Ipv6Addr.new 0 0 0 0 0 0xffff y z ≠ .new 0 0 0 0 0 0 0 other := by
    simp [Ipv6Addr.new]
  simp only [List.forall_mem_cons, List.not_mem_nil, IsEmpty.forall_iff,
    implies_true, and_true, contains_documentation, Carrier.compatible,
    Carrier.nat64, Carrier.sixToFour, contains_six, contains_lead le_rfl]
  refine ⟨⟨by simp, ?_⟩, by simp, by simp, by simp⟩
  exact not_tested (by decide) (by decide) (hapart 0) (hapart 1)

theorem onInternet_iff {address : IpAddr}
    (h : isPublicAddress address = true) :
    address.OnInternet ↔ ¬ address.Overlooked := by
  cases address with
  | v4 address =>
      have honline := (isPublicV4_iff address).mp h
      exact ⟨fun _ => id, fun _ => honline⟩
  | v6 address =>
      cases hmapped : address.toIpv4Mapped with
      | some v4 =>
          rw [isPublicAddress, hmapped] at h
          obtain ⟨hcontains, rfl⟩ := toIpv4Mapped_eq_some_iff.mp hmapped
          have honline := (isPublicV4_iff _).mp h
          obtain ⟨hblocks, hapart⟩ := mapped_apart hcontains
          simp only [List.forall_mem_cons] at hapart
          obtain ⟨hcompatible, hnat64, hsixToFour, -⟩ := hapart
          constructor
          · rintro - (hdoc | ⟨hnat, -⟩ | ⟨hsix, -⟩ | ⟨⟨hcompat, -⟩, -⟩)
            · exact hblocks _ List.mem_cons_self hdoc
            · exact hnat64 hnat
            · exact hsixToFour hsix
            · exact hcompatible hcompat
          · intro _
            refine ⟨hblocks, ?_⟩
            simp only [carriers, List.forall_mem_cons]
            exact ⟨fun hspecial => hspecial.2 honline,
              fun hspecial => hcompatible hspecial.1,
              fun hspecial => hnat64 hspecial.1,
              fun hspecial => hsixToFour hspecial.1, by simp⟩
      | none =>
          rw [isPublicAddress, hmapped] at h
          have htested := (isPublicV6_iff address).mp h
          have hunmapped : ¬ Carrier.mapped.CarriesSpecial address := by
            rintro ⟨hcontains, -⟩
            have hsome := toIpv4Mapped_eq_some_iff.mpr ⟨hcontains, rfl⟩
            rw [hmapped] at hsome
            cases hsome
          have hne : address ≠ .new 0 0 0 0 0 0 0 0 := fun hsame =>
            htested _ List.mem_cons_self (contains_whole.mpr hsame)
          have hone : address ≠ .new 0 0 0 0 0 0 0 1 := fun hsame =>
            htested _ (List.mem_cons_of_mem _ List.mem_cons_self)
              (contains_whole.mpr hsame)
          constructor
          · rintro ⟨hblocks, hcarriers⟩
              (hdoc | hnat | hsix | ⟨hcompat, -⟩)
            · exact hblocks _ List.mem_cons_self hdoc
            · exact hcarriers _ (by simp [carriers]) hnat
            · exact hcarriers _ (by simp [carriers]) hsix
            · exact hcarriers _ (by simp [carriers]) hcompat
          · intro hnot
            simp only [IpAddr.Overlooked, not_or] at hnot
            obtain ⟨hdoc, hnat, hsix, hcompat⟩ := hnot
            refine ⟨List.forall_mem_cons.mpr ⟨hdoc, htested⟩, ?_⟩
            simp only [carriers, List.forall_mem_cons]
            exact ⟨hunmapped, fun hspecial => hcompat ⟨hspecial, hne, hone⟩,
              hnat, hsix, by simp⟩

end Overlooked

end Segmentor
