import LabelQuery.Label.Reader
import LabelQuery.Provider.Basic
import LabelQuery.Selector.Parser
import LabelQuery.Settings.Load
import LabelQuery.Proofs.Label.Reader
import LabelQuery.Proofs.Label.Key
import LabelQuery.Proofs.Number.Rounding
import LabelQuery.Proofs.Number.Range
import LabelQuery.Proofs.Number.Hexadecimal
import LabelQuery.Proofs.Number.Grammar
import LabelQuery.Proofs.Number.Parts
import LabelQuery.Proofs.Number.Reading
import LabelQuery.Proofs.Number.Numeric
import LabelQuery.Proofs.Number.Longest
import LabelQuery.Proofs.Number.Separators
import LabelQuery.Proofs.Number.Nearest
import LabelQuery.Proofs.Number.HexadecimalValue
import LabelQuery.Proofs.Selector.Grammar
import LabelQuery.Proofs.Selector.Draft
import LabelQuery.Proofs.Selector.Building
import LabelQuery.Proofs.Selector.Reading
import LabelQuery.Proofs.Selector.Parsing
import LabelQuery.Proofs.Selector.Printing
import LabelQuery.Proofs.Selector.Position
import LabelQuery.Proofs.Selector.Joining
import LabelQuery.Proofs.Query.Condition
import LabelQuery.Proofs.Query.Translation
import LabelQuery.Proofs.Query.NormalForm
import LabelQuery.Proofs.Query.Limit
import LabelQuery.Proofs.Query.LimitSearch
import LabelQuery.Proofs.Query.OrderTest
import LabelQuery.Proofs.Query.Rendering
import LabelQuery.Proofs.KeyMap
import LabelQuery.Proofs.Provider.History
import LabelQuery.Proofs.Text.Word
import LabelQuery.Proofs.Settings.Extraction
import LabelQuery.Proofs.Settings.Rewording
import LabelQuery.Proofs.Settings.VariableName
import LabelQuery.Proofs.Settings.Word
import LabelQuery.Proofs.Settings.Override
import LabelQuery.Proofs.Settings.VariableOrder
