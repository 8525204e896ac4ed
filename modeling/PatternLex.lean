import PatternLex.CharClass.Grammar
import PatternLex.CharClass.Printer
import PatternLex.Escape.Unit
import PatternLex.Event
import PatternLex.Pattern.ClassStep
import PatternLex.Text.Cursor
import PatternLex.Text.Bytes
import PatternLex.Text.Glyph
import PatternLex.Proofs.ClassGrammar
import PatternLex.Proofs.TokenSpelling
import PatternLex.Proofs.ClosingBracket
import PatternLex.Proofs.DecodedClass
import PatternLex.Proofs.DecodingLog
import PatternLex.Proofs.ItemText
import PatternLex.Proofs.LastBracket
import PatternLex.Proofs.LocalDecoding
import PatternLex.Proofs.MetacharacterGlyphs
import PatternLex.Proofs.UnitPace
import PatternLex.Pattern.ByteScan
import PatternLex.Proofs.BodyLocality
import PatternLex.Proofs.PatternPartition
import PatternLex.Proofs.PatternAppend
import PatternLex.Proofs.SpelledClass
import PatternLex.Proofs.OwnBytes
import PatternLex.Pattern.BracketProbe
import PatternLex.Proofs.BracketReport
import PatternLex.Proofs.ProviderTransport
import PatternLex.Proofs.SecondDecoding
import PatternLex.Proofs.BackspaceMarker
import PatternLex.Proofs.DecodingAppend
import PatternLex.Proofs.BodyAppend
import PatternLex.Proofs.DecodedSize
import PatternLex.Proofs.ProductionOrder
import PatternLex.Text.LiteralReader
import PatternLex.Proofs.TokenDisplay
import PatternLex.CharClass.ShorthandTable
import PatternLex.Proofs.ShorthandLetters
import PatternLex.Proofs.CaretPlace
import PatternLex.CharClass.Progress
import PatternLex.Proofs.TemplateReading
import PatternLex.Proofs.RoundInvariant
