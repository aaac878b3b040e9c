import TermAlgebra.Value.Basic

/-!
# Comparing values

When two values are equal, which values can be keys, and which of two values comes first.  Numbers
are compared by what they stand for, so the exact number of a decimal literal comes before all.
-/

namespace TermAlgebra

/-!
## Decimal literals

The exact number that a literal with a fraction stands for.  The literal names a double, so it is
the double that counts: `1e+23` stands for the nearest double, which is not the power of ten.  Every
finite double is a whole number halved so many times.
-/

/-- An exact number: a whole number halved `halvings` times, or an infinite one. -/
inductive Exact where
  | finite (n : Int) (halvings : Nat)
  | infinite (negative : Bool)

namespace Exact

/-- A whole number. -/
def ofInt (i : Int) : Exact := finite i 0

/-- The number with the other sign. -/
def negate : Exact → Exact
  | finite n k => finite (-n) k
  | infinite negative => infinite !negative

/-- Whether two numbers are equal. -/
def same : Exact → Exact → Bool
  | finite n k, finite n' k' => n * Nat.pow 2 k' == n' * Nat.pow 2 k
  | infinite b, infinite b' => b == b'
  | _, _ => false

/-- Whether a number is smaller than another. -/
def less : Exact → Exact → Bool
  | finite n k, finite n' k' => n * Nat.pow 2 k' < n' * Nat.pow 2 k
  | finite _ _, infinite negative => !negative
  | infinite negative, finite _ _ => negative
  | infinite negative, infinite negative' => negative && !negative'

/-- Whether a number is zero. -/
def isZero : Exact → Bool
  | finite n _ => n == 0
  | infinite _ => false

end Exact

namespace Decimal

/-- Reads an exponent, which may have a sign. -/
def readExponent : List Char → Option Int
  | [] => some 0
  | '-' :: ds => (String.ofList ds).toNat?.map fun n => -(n : Int)
  | '+' :: ds => (String.ofList ds).toNat?.map Int.ofNat
  | ds => (String.ofList ds).toNat?.map Int.ofNat

/-- The double nearest to an unsigned literal with digits, an optional fraction and an optional
exponent. -/
def readDouble (cs : List Char) : Option Float := do
  let significand := cs.takeWhile (· ≠ 'e')
  let whole := significand.takeWhile (· ≠ '.')
  let fraction := (significand.dropWhile (· ≠ '.')).drop 1
  let digits ← (String.ofList (whole ++ fraction)).toNat?
  let exponent ← readExponent ((cs.dropWhile (· ≠ 'e')).drop 1)
  let exponent := exponent - fraction.length
  return Float.ofScientific digits (exponent < 0) exponent.natAbs

/-- The number that a double without sign is, decoded from its bits: the significand times a power
of two. -/
def ofDouble (x : Float) : Exact :=
  let bits := x.toBits.toNat
  let field := (bits >>> 52) % 2048
  let low := bits % (1 <<< 52)
  if field == 2047 then .infinite false
  else
    let m : Nat := if field == 0 then low else (1 <<< 52) + low
    let e : Nat := if field == 0 then 1 else field
    if 1075 ≤ e then .ofInt (m <<< (e - 1075) : Nat) else .finite m (1075 - e)

/-- The number that an unsigned literal stands for. -/
def readUnsigned (cs : List Char) : Option Exact :=
  if cs == ['i', 'n', 'f'] then some (.infinite false) else (readDouble cs).map ofDouble

/-- The number that a literal stands for. -/
def read (literal : String) : Option Exact :=
  match literal.toList with
  | '-' :: cs => (readUnsigned cs).map Exact.negate
  | cs => readUnsigned cs

/-- The literal of what is not a number. -/
def notNumber : String := "nan"

end Decimal

/-!
## Equality of values

Numbers are compared by what they stand for, a truth value counting as zero or one; lists and tuples
item by item; maps and sets without regard to order.  The library's own objects are equal when they
are of one kind and agree in all parts, but a substitution is equal only to itself.

Parts are compared for being alike: they are equal, or one and the same.  The two relations differ
only in what is not a number, which is equal to nothing but alike to itself.
-/

namespace Value

/-- The number that a value counts as. -/
def number? : Value → Option Exact
  | bool b => some (.ofInt (if b then 1 else 0))
  | int i => some (.ofInt i)
  | float literal => Decimal.read literal
  | _ => none

/-- Whether two values count as the same number. -/
def sameNumber (x y : Value) : Bool :=
  match x.number?, y.number? with
  | some a, some b => a.same b
  | _, _ => false

mutual

/-- Whether two values are alike, where `contexts` tells which contexts are. -/
def alikeWith (contexts : Nat → Nat → Bool) : Value → Value → Bool
  | null, null => true
  | notNumber m, notNumber m' => m == m'
  | text s, text s' => s == s'
  | bytes bs, bytes bs' => bs == bs'
  | list xs, list ys => alikeItems contexts xs ys
  | tuple xs, tuple ys => alikeItems contexts xs ys
  | map es, map es' => es.length == es'.length && alikeEntries contexts es es'
  | nameSet ns, nameSet ns' => ns.all ns'.contains && ns'.all ns.contains
  | symbol f, symbol g => f == g
  | term t, term u => t == u
  | equation e, equation e' => e == e'
  | signature ⟨fs, cs⟩, signature ⟨fs', cs'⟩ =>
    fs.length == fs'.length && fs.all fs'.contains &&
      cs.length == cs'.length && alikeMembers contexts cs cs'
  | report ⟨s, ds⟩, report ⟨s', ds'⟩ =>
    alikeWith contexts s s' && alikeDiagnostics contexts ds ds'
  | substitution i, substitution j => i == j
  | context i, context j => contexts i j
  | x, y => sameNumber x y
termination_by structural x _ => x

/-- Whether two lists of values are alike, item by item. -/
def alikeItems (contexts : Nat → Nat → Bool) : List Value → List Value → Bool
  | [], [] => true
  | x :: xs, y :: ys => alikeWith contexts x y && alikeItems contexts xs ys
  | _, _ => false
termination_by structural x _ => x

/-- Whether every entry of the first list has one alike in the second. -/
def alikeEntries (contexts : Nat → Nat → Bool) :
    List (Value × Value) → List (Value × Value) → Bool
  | [], _ => true
  | (k, x) :: rest, es =>
    es.any (fun e => alikeWith contexts k e.1 && alikeWith contexts x e.2) &&
      alikeEntries contexts rest es
termination_by structural x _ => x

/-- Whether every member of the first list has one alike in the second. -/
def alikeMembers (contexts : Nat → Nat → Bool) : List Value → List Value → Bool
  | [], _ => true
  | x :: xs, ys => ys.any (fun y => alikeWith contexts x y) && alikeMembers contexts xs ys
termination_by structural x _ => x

/-- Whether two lists of diagnostics are alike, part by part. -/
def alikeDiagnostics (contexts : Nat → Nat → Bool) :
    List (Diagnostic Value) → List (Diagnostic Value) → Bool
  | [], [] => true
  | ⟨c, s, m, none⟩ :: ds, ⟨c', s', m', none⟩ :: ds' =>
    alikeWith contexts c c' && s == s' && alikeWith contexts m m' &&
      alikeDiagnostics contexts ds ds'
  | ⟨c, s, m, some p⟩ :: ds, ⟨c', s', m', some p'⟩ :: ds' =>
    alikeWith contexts c c' && s == s' && alikeWith contexts m m' && alikeWith contexts p p' &&
      alikeDiagnostics contexts ds ds'
  | _, _ => false
termination_by structural x _ => x

end

/-- Members of sets and keys of maps are told apart by being alike.  None of them has a context
among its parts, so nothing has to be known about contexts. -/
instance : BEq Value := ⟨alikeWith (· == ·)⟩

/-- Whether two contexts are alike: they are one, or agree in what they check against and in what
they have found.  Contexts can hold contexts, and `fuel` bounds how deep they are looked into. -/
def alikeContexts (store : Store) : Nat → Nat → Nat → Bool
  | 0, i, j => i == j
  | fuel + 1, i, j =>
    let contexts := alikeContexts store fuel
    let ctx := store.context i
    let ctx' := store.context j
    i == j ||
      (alikeWith contexts ctx.sig ctx'.sig &&
        alikeDiagnostics contexts ctx.diagnostics ctx'.diagnostics &&
        ctx.constants.length == ctx'.constants.length &&
        alikeMembers contexts ctx.constants ctx'.constants &&
        ctx.nullary.length == ctx'.nullary.length &&
        alikeMembers contexts ctx.nullary ctx'.nullary)

/-- Whether two values are alike.  A descent through contexts that does not come back to a pair that
it met before has passed at most as many pairs as there are. -/
def alike (store : Store) (x y : Value) : Bool :=
  alikeWith (alikeContexts store (store.contexts.length * store.contexts.length)) x y

/-- Whether two values are equal. -/
def same (store : Store) (x y : Value) : Bool :=
  match x, y with
  | notNumber _, notNumber _ => false
  | x, y => alike store x y

mutual

/-- What keeps a value from being a key: the kind of the first part, or the value itself, that can
be changed or is compared by such a part. -/
def unhashable? : Value → Option Kind
  | list _ => some .list
  | map _ => some .map
  | signature _ => some .map
  | context _ => some .context
  | tuple xs => unhashableItem? xs
  | report ⟨s, ds⟩ => (unhashable? s).or (unhashableDiagnostic? ds)
  | _ => none

/-- The same for the first of several values. -/
def unhashableItem? : List Value → Option Kind
  | [] => none
  | x :: xs => (unhashable? x).or (unhashableItem? xs)

/-- The same for the first part of several diagnostics. -/
def unhashableDiagnostic? : List (Diagnostic Value) → Option Kind
  | [] => none
  | ⟨c, _, m, none⟩ :: ds => ((unhashable? c).or (unhashable? m)).or (unhashableDiagnostic? ds)
  | ⟨c, _, m, some p⟩ :: ds =>
    (((unhashable? c).or (unhashable? m)).or (unhashable? p)).or (unhashableDiagnostic? ds)

end

/-!
## The order of values

Numbers are ordered by size, texts by code points, byte strings by bytes, tuples and lists by the
first items that are not alike, and sets by inclusion.  Nothing else is ordered, and no value of one
of these sorts is ordered against one of another.
-/

/-- Whether a value is of a kind of numbers. -/
def isNumeric (x : Value) : Bool :=
  match x.kind with
  | .bool | .int | .float => true
  | _ => false

/-- Whether a value counts as a smaller number than another.  What is not a number is neither
smaller nor larger than any. -/
def smaller (x y : Value) : Bool :=
  match x.number?, y.number? with
  | some a, some b => a.less b
  | _, _ => false

mutual

/-- Whether a value comes before another. -/
def less : Value → Value → Except Fault Bool
  | text s, text s' => .ok (s < s')
  | bytes bs, bytes bs' => .ok (bs < bs')
  | list xs, list ys => lessItems xs ys
  | tuple xs, tuple ys => lessItems xs ys
  | nameSet ns, nameSet ns' => .ok (ns.all ns'.contains && !ns'.all ns.contains)
  | x, y =>
    if x.isNumeric && y.isNumeric then .ok (smaller x y) else .error (.unordered x.kind y.kind)

/-- Whether a list of values comes before another. -/
def lessItems : List Value → List Value → Except Fault Bool
  | _, [] => .ok false
  | [], _ :: _ => .ok true
  | x :: xs, y :: ys => if x == y then lessItems xs ys else less x y

end

/-- Puts a value into a list in front of the first value that it comes before. -/
def insertInOrder (x : Value) : List Value → Except Fault (List Value)
  | [] => .ok [x]
  | y :: ys => do
    if ← x.less y then return x :: y :: ys
    let zs ← insertInOrder x ys
    return y :: zs

/-- Values in their order, if they have one. -/
def inOrder (xs : List Value) : Except Fault (List Value) :=
  xs.foldlM (fun sorted x => insertInOrder x sorted) []

theorem insertInOrder_cons (x y : Value) (ys : List Value) :
    insertInOrder x (y :: ys) =
      match x.less y with
      | .error fault => .error fault
      | .ok true => .ok (x :: y :: ys)
      | .ok false => (insertInOrder x ys).map (y :: ·) := by
  rw [insertInOrder]
  cases h : x.less y with
  | error _ => simp [bind, Except.bind]
  | ok b => cases b <;> cases insertInOrder x ys <;> simp [bind, Except.bind, pure, Except.pure,
      Except.map]

/-- Putting a value into place loses nothing and adds nothing else. -/
theorem perm_of_insertInOrder {x : Value} {ys zs : List Value}
    (h : insertInOrder x ys = .ok zs) : zs.Perm (x :: ys) := by
  induction ys generalizing zs with
  | nil => cases h; exact .refl _
  | cons y ys ih =>
    rw [insertInOrder_cons] at h
    split at h
    · cases h
    · cases h
      exact .refl _
    · cases hs : insertInOrder x ys with
      | error _ => simp [hs, Except.map] at h
      | ok ws =>
        simp only [hs, Except.map, Except.ok.injEq] at h
        subst h
        exact ((ih hs).cons y).trans (.swap x y ys)

theorem perm_of_foldlM_insertInOrder {xs sorted ys : List Value}
    (h : xs.foldlM (fun sorted x => insertInOrder x sorted) sorted = .ok ys) :
    ys.Perm (sorted ++ xs) := by
  induction xs generalizing sorted with
  | nil =>
    cases h
    simp
  | cons x xs ih =>
    rw [List.foldlM_cons] at h
    cases hs : insertInOrder x sorted with
    | error _ => simp [hs, bind, Except.bind] at h
    | ok sorted' =>
      simp only [hs, bind, Except.bind] at h
      exact (ih h).trans (((perm_of_insertInOrder hs).append_right xs).trans
        List.perm_middle.symm)

/-- Values in their order are the same values. -/
theorem perm_of_inOrder {xs ys : List Value} (h : inOrder xs = .ok ys) : ys.Perm xs :=
  perm_of_foldlM_insertInOrder h

end Value

/-- The clashing names of a context in their order, if they have one. -/
def Context.clashingValues {σ : Type} (ctx : Context σ Value) : Except Fault (List Value) :=
  Value.inOrder ctx.clashes

end TermAlgebra
