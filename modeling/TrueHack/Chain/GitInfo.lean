-- SUMMARY: What the model is told about the last change, and how long a prompt can get.
import TrueHack.Base.Utf8
import TrueHack.Chain.AnalyzerRuns
import TrueHack.Chain.Selection

/-!
# The last change

An analyzer asks git for the last commit once, when it is made, and tells the model
about it in every prompt. The diff is cut by bytes. The encoder of the chat request
replaces what is no text, so that the strings here are what the model reads.
-/

namespace Chain

open Go Collector Utf8

/-- The most bytes of a diff. -/
def maxDiffSize : ℕ := 2000

def truncatedMark : String := "\n... (truncated)"

variable {log diff : Except String (List UInt8)} {model : String} {maxTokens : ℤ} {loc : Location}
  {told : String} {bytes : List UInt8}

/-! ## The diff -/

/-- What is told of a diff: all of it, or its beginning with a mark. -/
inductive Told (diff : List UInt8) : String → Prop where
  | whole (hshort : diff.length ≤ maxDiffSize) : Told diff (toText diff)
  | cut (hlong : maxDiffSize < diff.length) :
      Told diff (toText (diff.take maxDiffSize) ++ truncatedMark)

/-- What is told of a diff that is a text. Of the character at the cut the bytes before the cut
    are told as replacement characters. -/
inductive ToldText (text : String) : String → Prop where
  | whole (hshort : text.utf8ByteSize ≤ maxDiffSize) : ToldText text text
  | cut {kept behind : List Char} {c : Char} {k : ℕ} (htext : text.toList = kept ++ c :: behind)
      (hk : k < c.utf8Size) (hsize : (String.ofList kept).utf8ByteSize + k = maxDiffSize) :
      ToldText text (String.ofList (kept ++ List.replicate k replacement) ++ truncatedMark)

theorem Told.text {text : String} (h : Told (encode text.toList) told) : ToldText text told := by
  have hlength : (encode text.toList).length = text.utf8ByteSize := by
    rw [length_encode, String.ofList_toList]
  cases h with
  | whole hshort =>
      rw [toText_encode]
      exact .whole (hlength ▸ hshort)
  | cut hlong =>
      obtain ⟨kept, c, behind, k, htext, hk, hsum, hcut⟩ := toText_take hlong
      rw [hcut]
      exact .cut htext hk (by rw [← length_encode, hsum])

variable {cache : Cache LLMResponse} {key : CacheKey} {out : Outside} {req : ChatCompletionRequest}
  {a : Analyzer}

/-- A request for a chat completion is made of what was collected for the call. -/
theorem Misses.chatRequest {outcome : Outcome} (h : Misses a cache key out outcome)
    (hmem : .chat req ∈ outcome.contacts) :
    ∃ c, collectPrometheusData a.loc out.prometheus key.startTime key.endTime key.metrics = .ok c ∧
      req = a.chatRequest key.question c.result := by
  have hcollect {metrics : List String} {collected : Except String Collected} :
      .chat req ∉ Analyzer.collectContacts metrics collected := by
    cases collected <;> simp [Analyzer.collectContacts]
  have hlast {contacts : List Contact} {req' : ChatCompletionRequest}
      (hmem : .chat req ∈ contacts ++ [.chat req']) (hcontacts : .chat req ∉ contacts) :
      req = req' := by
    simpa [hcontacts] using hmem
  cases h with
  | collectFailed =>
      dsimp only at hmem
      exact absurd hmem hcollect
  | chatFailed hok => exact ⟨_, hok, hlast hmem hcollect⟩
  | noChoice hok => exact ⟨_, hok, hlast hmem hcollect⟩
  | answered hok => exact ⟨_, hok, hlast hmem hcollect⟩

end Chain
