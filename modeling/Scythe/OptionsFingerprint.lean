import Scythe.Lib.Delimited
import Scythe.Verification

-- The text over which the fingerprint of a target's options is taken.
namespace Scythe.OptionsFingerprint
open Text Delimited Verification

def fnv1a64 (bytes : List UInt8) : UInt64 :=
  bytes.foldl (fun hash byte => (hash ^^^ byte.toUInt64) * 0x100000001b3) 0xcbf29ce484222325

def optionLine (option : String × String) : List Char :=
  "opt\t".toList ++ (sanitizeField option.1.toList ++ '\t' :: (sanitizeField option.2.toList ++ ['\n']))

def manifestLine (overlay : String) : List Char := "manifest\t".toList ++ (sanitizeField overlay.toList ++ ['\n'])

def linesOf (sorted : List (String × String)) (manifestOverlay : Option String) : List Char :=
  sorted.flatMap optionLine ++ (manifestOverlay.map manifestLine).getD []

def canonicalForm (options : List (String × String)) (manifestOverlay : Option String) : List Char :=
  linesOf (sortBy (·.1) options) manifestOverlay

def optionsFingerprintAlgorithmTag : List Char := "opt1".toList

def optionsFingerprint (options : List (String × String)) (manifestOverlay : Option String) : List Char :=
  let canonical := canonicalForm options manifestOverlay
  fingerprintText optionsFingerprintAlgorithmTag (fnv1a64 (String.ofList canonical).toByteArray.toList)

-- The options of a target, in some order, with no key twice.
structure Options where
  entries : List (String × String)
  distinct : (entries.map (·.1)).Nodup

theorem sanitize_unbroken {value : List Char} {c : Char} (blank : isSpace c = true) : c ∉ sanitizeField value := by
  intro member
  rw [sanitize_solid value c member] at blank
  cases blank

theorem field_inj {separator : Char} (blank : isSpace separator = true) {value other : String} {rest more : List Char}
    (equal : sanitizeField value.toList ++ separator :: rest = sanitizeField other.toList ++ separator :: more) :
    value = other ∧ rest = more := by
  obtain ⟨same,after⟩ := cut_unique (sanitize_unbroken blank) (sanitize_unbroken blank) equal
  exact ⟨String.toList_inj.mp (sanitizeField_inj.mp same),after⟩

theorem manifest_inj {overlay other : Option String}
    (equal : (overlay.map manifestLine).getD [] = (other.map manifestLine).getD []) : overlay = other := by
  cases overlay with
  | none =>
    cases other with
    | none => rfl
    | some text => cases equal
  | some text =>
    cases other with
    | none => cases equal
    | some text' =>
      have texts := List.append_cancel_left (show manifestLine text = manifestLine text' from equal)
      exact congrArg some (field_inj (by decide) texts).1

-- No line of an option can be taken for the line of a manifest.
theorem option_manifest (option : String × String) (rest : List Char) (overlay : Option String) :
    optionLine option ++ rest ≠ (overlay.map manifestLine).getD [] := by
  intro equal
  cases overlay with
  | none => cases equal
  | some text =>
    have letters := congrArg List.head? equal
    cases letters

-- The lines are read back one by one.
theorem lines_inj {options others : List (String × String)} {overlay other : Option String}
    (equal : linesOf options overlay = linesOf others other) : options = others ∧ overlay = other := by
  unfold linesOf at equal
  induction options generalizing others with
  | nil =>
    cases others with
    | nil => exact ⟨rfl,manifest_inj equal⟩
    | cons option others =>
      rw [List.flatMap_cons,List.append_assoc] at equal
      exact absurd equal.symm (option_manifest _ _ _)
  | cons option options ih =>
    cases others with
    | nil =>
      rw [List.flatMap_cons,List.append_assoc] at equal
      exact absurd equal (option_manifest _ _ _)
    | cons option' others =>
      rw [List.flatMap_cons,List.flatMap_cons,List.append_assoc,List.append_assoc] at equal
      unfold optionLine at equal
      simp only [List.append_assoc,List.cons_append] at equal
      obtain ⟨key,values⟩ := field_inj (by decide) (List.append_cancel_left equal)
      obtain ⟨value,rest⟩ := field_inj (by decide) values
      obtain ⟨same,overlays⟩ := ih rest
      exact ⟨List.cons_eq_cons.mpr ⟨Prod.ext key value,same⟩,overlays⟩

-- The text does not depend on the order of the options, and tells any two maps and
-- overlays apart.
theorem canonical_form_exact (options others : Options) (overlay other : Option String) :
    canonicalForm options.entries overlay = canonicalForm others.entries other ↔
      options.entries.Perm others.entries ∧ overlay = other := by
  constructor
  · intro equal
    obtain ⟨same,overlays⟩ := lines_inj equal
    refine ⟨?_,overlays⟩
    exact ((sortBy_perm _ options.entries).symm.trans (List.Perm.of_eq same)).trans (sortBy_perm _ others.entries)
  · rintro ⟨perm,overlays⟩
    unfold canonicalForm
    rw [sortBy_eq options.distinct perm,overlays]

theorem fingerprint_perm (options others : Options) (perm : options.entries.Perm others.entries) (overlay : Option String) :
    optionsFingerprint options.entries overlay = optionsFingerprint others.entries overlay := by
  unfold optionsFingerprint canonicalForm
  rw [sortBy_eq options.distinct perm]

end Scythe.OptionsFingerprint
