/-!
# Pointers

A pointer addresses a place in a document: `#`, and behind it the segments of the path, each after a
slash. In a segment `~` is written `~0` and `/` is written `~1`, so that slashes part segments and
nothing else.
-/

namespace ApiLint

/-- A `#`-rooted path, or the empty text for none. -/
abbrev Pointer := String

namespace Pointer

/-- The pointer to the whole document. -/
def root : Pointer := "#"

def escapeChars : List Char → List Char
  | [] => []
  | '~' :: cs => '~' :: '0' :: escapeChars cs
  | '/' :: cs => '~' :: '1' :: escapeChars cs
  | c :: cs => c :: escapeChars cs

def unescapeChars : List Char → List Char
  | [] => []
  | '~' :: '0' :: cs => '~' :: unescapeChars cs
  | '~' :: '1' :: cs => '/' :: unescapeChars cs
  | c :: cs => c :: unescapeChars cs

/-- The written form of a segment. -/
def escape (segment : String) : String := String.ofList (escapeChars segment.toList)

/-- The segment of a written form. -/
def unescape (written : String) : String := String.ofList (unescapeChars written.toList)

/-- The pointer itself, or the root for the empty one. -/
def orRoot (base : Pointer) : Pointer := if base.isEmpty then root else base

/-- The pointer with one segment behind it. -/
def push (base : Pointer) (segment : String) : Pointer := base ++ "/" ++ escape segment

/-- The pointer with segments behind it; the empty pointer counts as the root. -/
def join (base : Pointer) (segments : List String) : Pointer := segments.foldl push base.orRoot

@[simp] theorem unescapeChars_escapeChars (cs : List Char) :
    unescapeChars (escapeChars cs) = cs := by
  fun_induction escapeChars cs with
  | case1 => rfl
  | case2 cs ih => simp [unescapeChars, ih]
  | case3 cs ih => simp [unescapeChars, ih]
  | case4 c cs hc hc' ih =>
    have : ∀ ds, unescapeChars (c :: ds) = c :: unescapeChars ds := by
      intro ds
      rw [unescapeChars]
      · rintro _ rfl; exact absurd rfl hc
      · rintro _ rfl; exact absurd rfl hc
    rw [this, ih]

theorem unescape_escape (s : String) : unescape (escape s) = s := by
  simp [unescape, escape]

theorem slash_notMem_escapeChars (cs : List Char) : '/' ∉ escapeChars cs := by
  fun_induction escapeChars cs with
  | case1 => simp
  | case2 cs ih => simp [ih]
  | case3 cs ih => simp [ih]
  | case4 c cs _ hc' ih => simpa [ih] using fun h => hc' h.symm

theorem join_append (base : Pointer) (xs ys : List String) :
    join base (xs ++ ys) = ys.foldl push (join base xs) := by
  simp [join]

end Pointer

end ApiLint
