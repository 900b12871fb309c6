import KubeAtlas.Proofs.Store.Contained
/-!
# What an answer decodes to

A provider may break its answers into lines, and break them as it likes. Blanks are taken out before
the answer is read, so that every spacing of the text of some bytes is these bytes again, and a path
is served as it would be without them. Beyond blanks nothing is forgiven. An answer with a character
that base64 does not use is a fault of decoding, also where what stands in front of the character
would have been a document.
-/

namespace KubeAtlas

variable {σ : Type}

def Provider.AnswersAt (p : Provider σ) (ix : Cluster.Index) (path : String) (w : World σ)
    (answer : Datum) (v : World σ) : Prop :=
  ∀ c name, Store.locate ix path = .ok (c, name) →
    (p.kubeconfig c.endpoint c.id Store.fullGrant).perform w = (.ok answer, v)

namespace Store

open Cluster (Index)
open Text (Spaced)

def textAnswer (s : List Char) : Datum := .str (String.ofList s)

theorem decode_textAnswer (s : List Char) :
    decode (textAnswer s) = match Text.Base64.decode (Text.squeeze s) with
      | .ok bytes => .ok bytes
      | .error e => .error (.base64 e) := by
  rw [textAnswer, decode, String.toList_ofList]
  rfl

theorem decode_of_spaced {bytes : List UInt8} {s : List Char}
    (h : Spaced (Text.Base64.encode bytes) s) : decode (textAnswer s) = .ok bytes := by
  rw [decode_textAnswer, h.squeeze_eq, Text.Base64.squeeze_encode, Text.Base64.decode_encode]

theorem decode_of_foreign {s : List Char} {c : Char} (hmem : c ∈ s)
    (hblank : Text.isBlank c = false) (hc : ¬ Text.Base64.IsData c) :
    ∃ e, decode (textAnswer s) = .error (.base64 e) := by
  have hleft : c ∈ Text.squeeze s := List.mem_filter.2 ⟨hmem, by rw [hblank]; rfl⟩
  obtain ⟨e, he⟩ := Text.Base64.decode_of_foreign hleft hc
  exact ⟨e, by rw [decode_textAnswer, he]⟩

/-- What is served for a path depends on the bytes of the answer only. -/
theorem materialize_of_decode_eq (write : Writer) (path name : String) {answer other : Datum}
    (h : decode answer = decode other) :
    materialize write path name answer = materialize write path name other := by
  rw [materialize_eq, materialize_eq, h]

theorem perform_kubeconfig_of_answers {p : Provider σ} (write : Writer) {ix : Index}
    {path : String} {w v : World σ} {answer : Datum} (h : p.AnswersAt ix path w answer v) :
    (kubeconfig p write ix path).perform w = match locate ix path with
      | .error e => (.error e, w)
      | .ok (_, name) => (materialize write path name answer, v) := by
  rw [perform_kubeconfig]
  cases hlocate : locate ix path with
  | error e => rfl
  | ok found =>
      obtain ⟨c, name⟩ := found
      simp only [h c name hlocate]

/-- **Blanks do not matter, and nothing else is overlooked.** With blanks put in anywhere, the text
of some bytes decodes to these bytes, and a path is served or fails as it would be with the text as
it was written. Lines of any lengths with any blanks between them are a case of that. A character
that is neither a blank nor used by base64 makes the path fail in decoding, and there is no
document. -/
theorem answers_decoded_exactly (write : Writer) (ix : Index) (path : String) :
    (∀ (bytes : List UInt8) (s : List Char), Spaced (Text.Base64.encode bytes) s →
      decode (textAnswer s) = .ok bytes ∧
      ∀ (p q : Provider σ) (w v : World σ), p.AnswersAt ix path w (textAnswer s) v →
        q.AnswersAt ix path w (answerOf bytes) v →
        (kubeconfig p write ix path).perform w = (kubeconfig q write ix path).perform w) ∧
    (∀ (bytes : List UInt8) (lines : List (List Char)) (newline : List Char),
      lines.flatten = Text.Base64.encode bytes → (∀ c ∈ newline, Text.isBlank c = true) →
      decode (textAnswer (newline.intercalate lines)) = .ok bytes) ∧
    ∀ (s : List Char) (c : Char), c ∈ s → Text.isBlank c = false → ¬ Text.Base64.IsData c →
      ∀ (p : Provider σ) (w v : World σ), p.AnswersAt ix path w (textAnswer s) v →
        ∀ found, locate ix path = .ok found → ∃ e : Text.Base64.Error,
          (kubeconfig p write ix path).perform w =
            (.error (.atPath .decoding path (.base64 e)), v) := by
  refine ⟨fun bytes s hspaced => ⟨decode_of_spaced hspaced, ?_⟩, ?_, ?_⟩
  · intro p q w v hp hq
    rw [perform_kubeconfig_of_answers write hp, perform_kubeconfig_of_answers write hq]
    have hsame : decode (textAnswer s) = decode (answerOf bytes) :=
      (decode_of_spaced hspaced).trans (decode_answerOf bytes).symm
    cases locate ix path with
    | error e => rfl
    | ok found => exact congrArg (·, v) (materialize_of_decode_eq write path found.2 hsame)
  · intro bytes lines newline hlines hnewline
    apply decode_of_spaced
    rw [← hlines]
    exact Spaced.intercalate hnewline lines
  · intro s c hmem hblank hc p w v hp found hlocate
    obtain ⟨e, he⟩ := decode_of_foreign hmem hblank hc
    refine ⟨e, ?_⟩
    rw [perform_kubeconfig_of_answers write hp, hlocate]
    simp only [materialize_eq, he]

def saying (s : List Char) : Provider Unit :=
  { oneZone [⟨.str "1", .str "a"⟩] with kubeconfig := fun _ _ _ => pure (textAnswer s) }

def afterReport : Index := (Search.next (saying []) .unstarted .empty ⟨(), .quiet⟩).index

/-- The text `YQBi/w==` of four bytes, in three lines. -/
def inThreeLines : List Char :=
  ['\r', '\n'].intercalate [['Y', 'Q', 'B'], ['i', '/', 'w'], ['=', '=']]

/-- The text with a dash for the slash. -/
def withDash : List Char := ['Y', 'Q', 'B', 'i', '-', 'w', '=', '=']

/-- Three lines decode to the bytes of the one line; a dash does not decode, in spite of the
complete group in front of it. -/
theorem answers_decoded_exactly_lines :
    decode (textAnswer inThreeLines) = .ok [97, 0, 98, 255] ∧
      (kubeconfig (saying inThreeLines) Kubeconfig.serialize afterReport "z/a").perform
          ⟨(), .quiet⟩ =
        (kubeconfig (saying (Text.Base64.encode [97, 0, 98, 255])) Kubeconfig.serialize afterReport
          "z/a").perform ⟨(), .quiet⟩ ∧
      ∃ e : Text.Base64.Error,
        (kubeconfig (saying withDash) Kubeconfig.serialize afterReport "z/a").perform
          ⟨(), .quiet⟩ = (.error (.atPath .decoding "z/a" (.base64 e)), ⟨(), .quiet⟩) := by
  obtain ⟨hspaced, hlines, hforeign⟩ :=
    answers_decoded_exactly (σ := Unit) Kubeconfig.serialize afterReport "z/a"
  have hflat : [['Y', 'Q', 'B'], ['i', '/', 'w'], ['=', '=']].flatten =
      Text.Base64.encode [97, 0, 98, 255] := by decide +kernel
  have hblanks : ∀ c ∈ ['\r', '\n'], Text.isBlank c = true := by
    intro c hc
    rcases List.mem_pair.1 hc with rfl | rfl <;> rfl
  have hfound : (locate afterReport "z/a").isOk = true := by decide +kernel
  refine ⟨hlines _ _ _ hflat hblanks, ?_, ?_⟩
  · refine (hspaced [97, 0, 98, 255] inThreeLines ?_).2 (saying inThreeLines)
      (saying (Text.Base64.encode [97, 0, 98, 255])) ⟨(), .quiet⟩ ⟨(), .quiet⟩
      (fun _ _ _ => rfl) (fun _ _ _ => rfl)
    rw [← hflat]
    exact Spaced.intercalate hblanks _
  · have hdash : ¬ Text.Base64.IsData '-' := by
      unfold Text.Base64.IsData
      decide
    cases hlocate : locate afterReport "z/a" with
    | error e =>
        rw [hlocate] at hfound
        cases hfound
    | ok found =>
        exact hforeign withDash '-' (by decide) (by decide) hdash (saying withDash) ⟨(), .quiet⟩
          ⟨(), .quiet⟩ (fun _ _ _ => rfl) found hlocate

end Store
end KubeAtlas
