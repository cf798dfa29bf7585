import ElfInspect.Blueprint
import ElfInspect.Draft
import ElfInspect.Main
import ElfInspect.Proofs.AddressGrammar
import ElfInspect.Proofs.CellSteps
import ElfInspect.Proofs.CursorRuns
import ElfInspect.Proofs.Faults
import ElfInspect.Proofs.Footprint
import ElfInspect.Proofs.HeaderGrammar
import ElfInspect.Proofs.HeaderReports
import ElfInspect.Proofs.InterpreterPaths
import ElfInspect.Proofs.ListingLines
import ElfInspect.Proofs.Listings
import ElfInspect.Proofs.Lookups
import ElfInspect.Proofs.Names
import ElfInspect.Proofs.NoTraps
import ElfInspect.Proofs.ReadBack
import ElfInspect.Proofs.Regions
import ElfInspect.Proofs.Searches
import ElfInspect.Proofs.SectionScans
import ElfInspect.Proofs.SessionLog
import ElfInspect.Proofs.ShownNames
import ElfInspect.Proofs.Sinks
import ElfInspect.Proofs.Slots
import ElfInspect.Proofs.SymbolTables
